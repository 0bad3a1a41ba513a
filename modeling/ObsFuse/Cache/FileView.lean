import ObsFuse.Cache.FileBuffer

/-! # One file seen through the write buffer

On storage that does not fail, and without a multipart upload, a call on the write buffer
acts on a file's buffer and on the object under its key alone. `FileView` keeps these two;
the lemmas say what each call does to them. -/

namespace ObsFuse
open Lib

/-- A file's buffer, if it has one, and the object under its key. -/
structure FileView where
  buffer : Option FileWriteBuffer
  object : Option Bytes

/-- A buffer of the file at `key` that a plain flush stores. -/
structure FileWriteBuffer.Plain (key : Str) (buf : FileWriteBuffer) : Prop where
  path : buf.path = key
  multipart : buf.multipart = none
  dirty : buf.data ≠ [] → buf.dirty = true

namespace FileWriteBuffer
variable {key : Str} {buf : FileWriteBuffer}

theorem Plain.new (now : Instant) (inode : ℕ) (key : Str) (size : ℕ) :
    Plain key (.new now inode key size) :=
  ⟨rfl, rfl, fun h => absurd rfl h⟩

theorem Plain.placed (h : Plain key buf) (offset len : ℕ) : Plain key (buf.placed offset len) :=
  ⟨h.path, h.multipart, h.dirty⟩

theorem Plain.appended (h : Plain key buf) (now : Instant) (offset : ℕ) (data : Bytes) :
    Plain key (buf.appended now offset data) :=
  ⟨h.path, h.multipart, fun _ => rfl⟩

theorem Plain.grown (h : Plain key buf) (n : ℕ) : Plain key (buf.grown n) :=
  ⟨h.path, h.multipart, h.dirty⟩

theorem Plain.flushed (h : Plain key buf) : Plain key buf.flushed :=
  ⟨h.path, rfl, fun hne => absurd rfl hne⟩

end FileWriteBuffer

namespace FileView

def flushed (v : FileView) : FileView :=
  match v.buffer with
  | some buf => if buf.data = [] then v else ⟨some buf.flushed, some buf.data⟩
  | none => v

def released (v : FileView) : FileView := ⟨none, v.flushed.object⟩

def expired (cfg : WriteBufferConfig) (now : Instant) (v : FileView) : FileView :=
  if v.buffer.any (·.needsTimeFlush now cfg.flushInterval) then v.flushed else v

def write (cfg : WriteBufferConfig) (now : Instant) (inode : ℕ) (key : Str) (offset : ℕ)
    (data : Bytes) (fileSize : ℕ) (v : FileView) : FileView :=
  let buf := v.buffer.getD (.new now inode key fileSize)
  if buf.goesDirect offset then
    let buf := buf.placed offset data.length
    let buf := if buf.data = [] then buf else buf.flushed
    ⟨some (buf.grown (u64 (offset + data.length))), some data⟩
  else
    let v : FileView := ⟨some (buf.appended now offset data), v.object⟩
    if cfg.bufferSize ≤ buf.data.length + data.length then v.flushed else v

theorem flushed_flushed (v : FileView) : v.flushed.flushed = v.flushed := by
  obtain ⟨_ | buf, object⟩ := v
  · rfl
  · by_cases hd : buf.data = [] <;> simp [flushed, hd]

def Plain (key : Str) (v : FileView) : Prop := ∀ buf ∈ v.buffer, buf.Plain key

theorem Plain.flushed {key : Str} {v : FileView} (h : v.Plain key) : v.flushed.Plain key := by
  obtain ⟨_ | buf, object⟩ := v
  · exact h
  · by_cases hd : buf.data = []
    · simpa [FileView.flushed, hd] using h
    · intro b hb
      simp only [FileView.flushed, hd, if_false, Option.mem_def, Option.some.injEq] at hb
      exact hb ▸ (h buf rfl).flushed

theorem Plain.getD {key : Str} {v : FileView} (h : v.Plain key) (now : Instant) (inode size : ℕ) :
    (v.buffer.getD (.new now inode key size)).Plain key := by
  obtain ⟨_ | buf, object⟩ := v
  · exact .new ..
  · exact h buf rfl

theorem Plain.write {key : Str} {v : FileView} (h : v.Plain key) (cfg : WriteBufferConfig)
    (now : Instant) (inode offset : ℕ) (data : Bytes) (fileSize : ℕ) :
    (v.write cfg now inode key offset data fileSize).Plain key := by
  have hb := h.getD now inode fileSize
  unfold FileView.write
  generalize v.buffer.getD (.new now inode key fileSize) = buf at hb
  have happ : FileView.Plain key ⟨some (buf.appended now offset data), v.object⟩ := by
    intro b hb
    cases hb
    exact hb.appended ..
  dsimp only
  split
  · intro b hb
    cases hb
    split
    · exact (hb.placed ..).grown _
    · exact (hb.placed ..).flushed.grown _
  · split
    · exact happ.flushed
    · exact happ

end FileView

def WriteBuffer.view (wb : WriteBuffer) (cl : ObsClient) (inode : ℕ) (key : Str) : FileView :=
  ⟨AList.lookup inode wb.buffers, AList.lookup key cl.objects⟩

/-- The other files' buffers do not write to the key, and their uploads end. -/
def WriteBuffer.Apart (wb : WriteBuffer) (inode : ℕ) (key : Str) : Prop :=
  ∀ j buf, AList.lookup j wb.buffers = some buf → j ≠ inode →
    buf.path ≠ key ∧ (buf.multipart = none ∨ 0 < wb.config.partSize)

/-- The situation of one file in which a call has the effect its view says. -/
structure WriteBuffer.Calm (wb : WriteBuffer) (cl : ObsClient) (inode : ℕ) (key : Str) : Prop where
  reliable : cl.Reliable
  apart : wb.Apart inode key
  plain : (wb.view cl inode key).Plain key

namespace WriteBuffer

/-- What a call did: the file is still in a calm situation, under the same configuration,
and its view is `v`. -/
structure Effect (cfg : WriteBufferConfig) (inode : ℕ) (key : Str) (v : FileView)
    (r : WriteBuffer × ObsClient) : Prop where
  config : r.1.config = cfg
  calm : r.1.Calm r.2 inode key
  view : r.1.view r.2 inode key = v

variable {wb : WriteBuffer} {cl : ObsClient} {inode : ℕ} {key : Str}

theorem Apart.insert (h : wb.Apart inode key) (buf : FileWriteBuffer) :
    Apart { wb with buffers := wb.buffers.insert inode buf } inode key := by
  intro j b hb hj
  rw [Table.lookup_insert_if, if_neg hj] at hb
  exact h j b hb hj

theorem Apart.erase (h : wb.Apart inode key) :
    Apart { wb with buffers := wb.buffers.erase inode } inode key := by
  intro j b hb hj
  rw [Table.lookup_erase_if, if_neg hj] at hb
  exact h j b hb hj

theorem Calm.buffer {buf : FileWriteBuffer} (h : wb.Calm cl inode key)
    (hb : AList.lookup inode wb.buffers = some buf) : buf.Plain key :=
  h.plain buf hb

theorem Calm.flushBuffer {buf : FileWriteBuffer} (h : wb.Calm cl inode key)
    (hb : AList.lookup inode wb.buffers = some buf) (cfg : WriteBufferConfig) :
    cfg.flushBuffer buf cl =
      if buf.data = [] then (.ok (), buf, cl)
      else (.ok (), buf.flushed, cl.stored key buf.data) := by
  have hp := h.buffer hb
  rw [cfg.flushBuffer_reliable hp.dirty hp.multipart h.reliable, hp.path]

theorem Calm.flushOwn {buf : FileWriteBuffer} (h : wb.Calm cl inode key)
    (hb : AList.lookup inode wb.buffers = some buf) :
    ∃ buf' cl', wb.config.flushBuffer buf cl = (.ok (), buf', cl') ∧
      Effect wb.config inode key (wb.view cl inode key).flushed
        ({ wb with buffers := wb.buffers.insert inode buf' }, cl') := by
  have hplain := h.plain.flushed
  rw [h.flushBuffer hb]
  by_cases hd : buf.data = []
  · have hview : view { wb with buffers := wb.buffers.insert inode buf } cl inode key =
        (wb.view cl inode key).flushed := by
      simp [view, FileView.flushed, hb, hd]
    rw [if_pos hd]
    exact ⟨_, _, rfl, rfl, ⟨h.reliable, h.apart.insert _, hview ▸ hplain⟩, hview⟩
  · have hview : view { wb with buffers := wb.buffers.insert inode buf.flushed }
        (cl.stored key buf.data) inode key = (wb.view cl inode key).flushed := by
      simp [view, FileView.flushed, hb, hd]
    rw [if_neg hd]
    exact ⟨_, _, rfl, rfl, ⟨h.reliable.stored _ _, h.apart.insert _, hview ▸ hplain⟩, hview⟩

theorem flush_effect (h : wb.Calm cl inode key) :
    (wb.flush cl inode).1 = .ok () ∧
      Effect wb.config inode key (wb.view cl inode key).flushed (wb.flush cl inode).2 := by
  unfold flush
  cases hb : AList.lookup inode wb.buffers with
  | none =>
    refine ⟨rfl, rfl, h, ?_⟩
    simp [view, FileView.flushed, hb]
  | some buf =>
    obtain ⟨buf', cl', hflush, heff⟩ := h.flushOwn hb
    dsimp only
    rw [hflush]
    exact ⟨rfl, heff⟩

theorem release_effect (h : wb.Calm cl inode key) :
    (wb.release cl inode).1 = .ok () ∧
      Effect wb.config inode key (wb.view cl inode key).released (wb.release cl inode).2 := by
  cases hb : AList.lookup inode wb.buffers with
  | none =>
    rw [release_none hb]
    refine ⟨rfl, rfl, h, ?_⟩
    simp [view, FileView.released, FileView.flushed, hb]
  | some buf =>
    have hnone : AList.lookup inode (wb.buffers.erase inode) = none := AList.lookup_erase ..
    rw [release_some hb, h.flushBuffer hb]
    by_cases hd : buf.data = []
    · have hview : view { wb with buffers := wb.buffers.erase inode } cl inode key =
          (wb.view cl inode key).released := by
        simp [view, FileView.released, FileView.flushed, hb, hd]
      simp only [hd, if_true]
      refine ⟨trivial, rfl, ⟨h.reliable, h.apart.erase, ?_⟩, hview⟩
      rw [hview]
      intro b hb
      cases hb
    · have hview : view { wb with buffers := wb.buffers.erase inode } (cl.stored key buf.data)
          inode key = (wb.view cl inode key).released := by
        simp [view, FileView.released, FileView.flushed, hb, hd]
      simp only [hd, if_false]
      refine ⟨trivial, rfl, ⟨h.reliable.stored _ _, h.apart.erase, ?_⟩, hview⟩
      rw [hview]
      intro b hb
      cases hb

theorem Calm.flushOther {j : ℕ} {buf : FileWriteBuffer} (h : wb.Calm cl inode key)
    (hb : AList.lookup j wb.buffers = some buf) (hj : j ≠ inode) :
    ∃ buf' cl', wb.config.flushBuffer buf cl = (.ok (), buf', cl') ∧
      Effect wb.config inode key (wb.view cl inode key)
        ({ wb with buffers := wb.buffers.insert j buf' }, cl') := by
  obtain ⟨hpath, hm⟩ := h.apart j buf hb hj
  obtain ⟨buf', cl', hflush, hpath', hm', hr', hframe⟩ :=
    wb.config.flushBuffer_frame hm h.reliable
  have hview : view { wb with buffers := wb.buffers.insert j buf' } cl' inode key =
      wb.view cl inode key := by
    simp only [view, Table.lookup_insert_if, if_neg hj.symm, hframe key hpath.symm]
  have hapart : Apart { wb with buffers := wb.buffers.insert j buf' } inode key := by
    intro i b hb' hi
    rw [Table.lookup_insert_if] at hb'
    split at hb'
    · obtain rfl := Option.some.inj hb'
      exact ⟨hpath' ▸ hpath, hm'⟩
    · exact h.apart i b hb' hi
  exact ⟨buf', cl', hflush, rfl, ⟨hr', hapart, hview ▸ h.plain⟩, hview⟩

/-- The loop over the buffers flushes the file's own buffer when it comes by and `p` holds. -/
theorem flushEach_effect (p : FileWriteBuffer → Bool) (l : List ℕ) (h : wb.Calm cl inode key) :
    (wb.flushEach cl p l).1 = .ok () ∧
      Effect wb.config inode key
        (if inode ∈ l ∧ (wb.view cl inode key).buffer.any p then (wb.view cl inode key).flushed
          else wb.view cl inode key)
        (wb.flushEach cl p l).2 := by
  induction l generalizing wb cl with
  | nil => exact ⟨rfl, rfl, h, by simp [flushEach]⟩
  | cons j l ih =>
    unfold flushEach
    cases hb : AList.lookup j wb.buffers with
    | none =>
      have hmem : inode ∈ j :: l ∧ (wb.view cl inode key).buffer.any p ↔
          inode ∈ l ∧ (wb.view cl inode key).buffer.any p := by
        by_cases hj : inode = j
        · subst hj
          simp [view, hb]
        · simp [hj]
      simpa only [hmem] using ih h
    | some buf =>
      dsimp only
      by_cases hj : j = inode
      · subst hj
        have hany : (wb.view cl j key).buffer.any p = p buf := by simp [view, hb]
        by_cases hp : p buf = true
        · obtain ⟨buf', cl', hflush, heff⟩ := h.flushOwn hb
          have hrest := ih heff.calm
          rw [heff.view, FileView.flushed_flushed, ite_self] at hrest
          rw [if_pos hp, hflush, if_pos ⟨List.mem_cons_self, hany ▸ hp⟩]
          exact hrest
        · have hrest := ih h
          rw [hany, if_neg fun hm => hp hm.2] at hrest
          rw [if_neg hp, hany, if_neg fun hm => hp hm.2]
          exact hrest
      · have hmem : inode ∈ j :: l ↔ inode ∈ l := by
          rw [List.mem_cons, or_iff_right fun hi => hj hi.symm]
        simp only [hmem]
        by_cases hp : p buf = true
        · obtain ⟨buf', cl', hflush, heff⟩ := h.flushOther hb hj
          have hrest := ih heff.calm
          rw [heff.view] at hrest
          rw [if_pos hp, hflush]
          exact hrest
        · rw [if_neg hp]
          exact ih h

theorem flushExpired_effect (h : wb.Calm cl inode key) (now : Instant) (order : IterOrder ℕ) :
    (wb.flushExpired cl now order).1 = .ok () ∧
      Effect wb.config inode key ((wb.view cl inode key).expired wb.config now)
        (wb.flushExpired cl now order).2 := by
  have hmem : (wb.view cl inode key).buffer.any (·.needsTimeFlush now wb.config.flushInterval) →
      inode ∈ order.visit wb.buffers.keys := by
    intro hany
    rw [order.mem_visit, ← AList.mem_keys, ← AList.lookup_isSome]
    cases hb : AList.lookup inode wb.buffers with
    | none => simp [view, hb] at hany
    | some buf => rfl
  have heach := flushEach_effect (·.needsTimeFlush now wb.config.flushInterval)
    (order.visit wb.buffers.keys) h
  simp only [and_iff_right_of_imp hmem] at heach
  exact heach

theorem writeLocked_view {buf : FileWriteBuffer} (cfg : WriteBufferConfig) (hp : buf.Plain key)
    (hr : cl.Reliable) (now : Instant) (inode offset : ℕ) (data : Bytes) (fileSize : ℕ)
    (ht : buf.data.length + data.length < cfg.multipartThreshold) :
    ∃ buf' cl', cfg.writeLocked buf cl now key offset data = (.ok data.length, buf', cl') ∧
      cl'.Reliable ∧
      (⟨some buf', AList.lookup key cl'.objects⟩ : FileView) =
        FileView.write cfg now inode key offset data fileSize
          ⟨some buf, AList.lookup key cl.objects⟩ := by
  by_cases hd : buf.goesDirect offset = true
  · rw [cfg.writeLocked_direct_reliable now key offset data hd hp.dirty hp.multipart hr]
    by_cases hnil : buf.data = []
    · rw [if_pos hnil]
      refine ⟨_, _, rfl, hr.stored _ _, ?_⟩
      simp [FileView.write, hd, hnil]
    · rw [if_neg hnil]
      refine ⟨_, _, rfl, (hr.stored _ _).stored _ _, ?_⟩
      simp [FileView.write, hd, hnil]
  · have hd' : buf.goesDirect offset = false := by simpa using hd
    by_cases hb : cfg.bufferSize ≤ buf.data.length + data.length
    · have happ := hp.appended now offset data
      rw [cfg.writeLocked_autoflush now key offset data hd' hp.multipart ht hb,
        cfg.flushBuffer_reliable happ.dirty happ.multipart hr]
      by_cases hnil : buf.data ++ data = []
      · rw [if_pos (by exact hnil)]
        refine ⟨_, _, rfl, hr, ?_⟩
        simp [FileView.write, FileView.flushed, hd, hb, hnil]
      · rw [if_neg (by exact hnil)]
        refine ⟨_, _, rfl, hr.stored _ _, ?_⟩
        simp [FileView.write, FileView.flushed, hd, hb, hnil, hp.path]
    · rw [cfg.writeLocked_append now key offset data hd' hp.multipart ht (by omega)]
      refine ⟨_, _, rfl, hr, ?_⟩
      simp [FileView.write, hd, hb]

theorem write_effect (h : wb.Calm cl inode key) (now : Instant) (offset : ℕ) (data : Bytes)
    (fileSize : ℕ)
    (ht : (wb.bufferFor now inode key fileSize).data.length + data.length <
      wb.config.multipartThreshold) :
    (wb.write cl now inode key offset data fileSize).1 = .ok data.length ∧
      Effect wb.config inode key
        ((wb.view cl inode key).write wb.config now inode key offset data fileSize)
        (wb.write cl now inode key offset data fileSize).2 := by
  have hplain := h.plain.write wb.config now inode offset data fileSize
  have hp : (wb.bufferFor now inode key fileSize).Plain key := h.plain.getD now inode fileSize
  obtain ⟨buf', cl', hw, hr', hv⟩ :=
    writeLocked_view wb.config hp h.reliable now inode offset data fileSize ht
  have hview : view { wb with buffers := wb.buffers.insert inode buf' } cl' inode key =
      (wb.view cl inode key).write wb.config now inode key offset data fileSize := by
    simp only [view, AList.lookup_insert]
    exact hv
  rw [write_eq, hw]
  exact ⟨rfl, rfl, ⟨hr', h.apart.insert _, hview ▸ hplain⟩, hview⟩

end WriteBuffer

end ObsFuse
