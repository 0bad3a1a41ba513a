import ObsFuse.Cache.FileBuffer

/-! # Properties of all buffers

A property that a new buffer has, and that a flush, a write and a truncation of one buffer keep,
holds of all buffers of the write buffer, whatever the storage answers. -/

namespace ObsFuse
open Lib

/-- A new buffer has the property, and the operations on one buffer keep it. -/
structure BufferRule (cfg : WriteBufferConfig) (P : FileWriteBuffer → Prop) : Prop where
  fresh : ∀ now inode path size, P (.new now inode path size)
  flush : ∀ buf cl, P buf → P (cfg.flushBuffer buf cl).2.1
  write : ∀ buf cl now path offset data, P buf →
    P (cfg.writeLocked buf cl now path offset data).2.1
  truncate : ∀ buf size dirty, P buf →
    P { buf with multipart := none, data := [], size := size, dirty := dirty }

namespace WriteBuffer

structure Holds (cfg : WriteBufferConfig) (P : FileWriteBuffer → Prop) (wb : WriteBuffer) :
    Prop where
  config : wb.config = cfg
  buffers : ∀ inode, ∀ buf ∈ wb.buffers.lookup inode, P buf

namespace Holds
variable {cfg : WriteBufferConfig} {P : FileWriteBuffer → Prop} {wb : WriteBuffer}

theorem insert (h : wb.Holds cfg P) (inode : ℕ) {buf : FileWriteBuffer} (hbuf : P buf) :
    Holds cfg P { wb with buffers := wb.buffers.insert inode buf } :=
  ⟨h.config, Table.forall_lookup_insert h.buffers inode hbuf⟩

theorem erase (h : wb.Holds cfg P) (inode : ℕ) :
    Holds cfg P { wb with buffers := wb.buffers.erase inode } := by
  refine ⟨h.config, ?_⟩
  intro j buf hbuf
  exact h.buffers j buf (Table.lookup_of_erase hbuf)

theorem bufferFor (h : wb.Holds cfg P) (rule : BufferRule cfg P) (now : Instant) (inode : ℕ)
    (path : Str) (size : ℕ) : P (wb.bufferFor now inode path size) := by
  unfold WriteBuffer.bufferFor
  cases hb : wb.buffers.lookup inode with
  | none => exact rule.fresh now inode path size
  | some buf => exact h.buffers inode buf hb

variable (h : wb.Holds cfg P) (rule : BufferRule cfg P) (cl : ObsClient)
include h rule

theorem write (now : Instant) (inode : ℕ) (path : Str) (offset : ℕ) (data : Bytes)
    (fileSize : ℕ) : (wb.write cl now inode path offset data fileSize).2.1.Holds cfg P := by
  have hbuf := rule.write _ cl now path offset data (h.bufferFor rule now inode path fileSize)
  rw [← h.config] at hbuf
  rw [write_eq]
  exact h.insert inode hbuf

theorem flush (inode : ℕ) : (wb.flush cl inode).2.1.Holds cfg P := by
  unfold WriteBuffer.flush
  cases hb : wb.buffers.lookup inode with
  | none => exact h
  | some buf =>
    have hbuf := rule.flush buf cl (h.buffers inode buf hb)
    rw [← h.config] at hbuf
    exact h.insert inode hbuf

omit rule in
theorem release (inode : ℕ) : (wb.release cl inode).2.1.Holds cfg P := by
  cases hb : wb.buffers.lookup inode with
  | none =>
    rw [release_none hb]
    exact h
  | some buf =>
    rw [release_some hb]
    exact h.erase inode

theorem truncate (now : Instant) (inode : ℕ) (path : Str) (size : ℕ) :
    (wb.truncate cl now inode path size).2.1.Holds cfg P := by
  have hgot : (wb.getOrCreate now inode path size).2.Holds cfg P ∧
      P (wb.getOrCreate now inode path size).1 := by
    unfold getOrCreate
    cases hb : wb.buffers.lookup inode with
    | none =>
      have hfresh := rule.fresh now inode path size
      exact ⟨h.insert inode hfresh, hfresh⟩
    | some buf => exact ⟨h, h.buffers inode buf hb⟩
  unfold WriteBuffer.truncate
  generalize wb.getOrCreate now inode path size = got at hgot ⊢
  obtain ⟨buf, wb'⟩ := got
  obtain ⟨hwb', hbuf⟩ := hgot
  dsimp only
  split
  · split
    · exact hwb'.insert inode (rule.truncate buf size true hbuf)
    · exact hwb'.insert inode (rule.truncate buf size false hbuf)
  · exact hwb'.insert inode (rule.truncate buf size true hbuf)

theorem flushEach (p : FileWriteBuffer → Bool) (inodes : List ℕ) :
    (wb.flushEach cl p inodes).2.1.Holds cfg P := by
  induction inodes generalizing wb cl with
  | nil => exact h
  | cons inode inodes ih =>
    unfold WriteBuffer.flushEach
    cases hb : wb.buffers.lookup inode with
    | none => exact ih h cl
    | some buf =>
      dsimp only
      split
      · have hbuf := rule.flush buf cl (h.buffers inode buf hb)
        rw [← h.config] at hbuf
        generalize wb.config.flushBuffer buf cl = r at hbuf ⊢
        obtain ⟨_ | _ | _, buf', cl'⟩ := r
        · exact ih (h.insert inode hbuf) cl'
        · exact h.insert inode hbuf
        · exact h.insert inode hbuf
      · exact ih h cl

end Holds

end WriteBuffer

end ObsFuse
