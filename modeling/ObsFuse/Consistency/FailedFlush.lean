import ObsFuse.Consistency.Session

/-! # Flushes that fail

The calls on one file's buffer while any request may fail. The history keeps the bytes of
the writes that returned since the last successful flush. `flush_buffer` takes the bytes out
of the buffer before it sends them, and `release` drops the buffer before it flushes it, so
a request that fails takes them along. A write that bypasses the buffer flushes it and then
replaces the object that it has just stored. -/

namespace ObsFuse
open Lib

inductive BufferCall where
  | write (now : Instant) (path : Str) (offset : ℕ) (data : Bytes) (fileSize : ℕ)
  | flush
  | syncFlush
  | release

/-- The write buffer and its client, with the bytes acknowledged since the last successful
flush of the file. -/
structure AckedFile where
  writeBuffer : WriteBuffer
  client : ObsClient
  acked : Bytes

/-- The buffer that a write flushes, if it flushes one, and what of its own data is in it. -/
def WriteBufferConfig.flushedByWrite (cfg : WriteBufferConfig) (buf : FileWriteBuffer)
    (now : Instant) (path : Str) (offset : ℕ) (data : Bytes) : Option (FileWriteBuffer × Bytes) :=
  if buf.goesDirect offset then some (buf.placed offset data.length, [])
  else
    match cfg.flushParts (cfg.startMultipart (buf.appended now offset data) path) with
    | none => none
    | some buf =>
      if buf.needsFlush cfg.bufferSize && buf.multipart.isNone then some (buf, data) else none

namespace AckedFile

/-- The buffer that the call flushes, with what the call itself put into it. -/
def flushed (inode : ℕ) (s : AckedFile) : BufferCall → Option (FileWriteBuffer × Bytes)
  | .write now path offset data fileSize =>
    s.writeBuffer.config.flushedByWrite (s.writeBuffer.bufferFor now inode path fileSize) now path
      offset data
  | .flush | .syncFlush | .release =>
    (AList.lookup inode s.writeBuffer.buffers).map fun buf => (buf, [])

/-- The object that a write which bypasses the buffer stores itself, after its flush. -/
def ownPut (inode : ℕ) (s : AckedFile) : BufferCall → Option (Str × Bytes)
  | .write now path offset data fileSize =>
    if (s.writeBuffer.bufferFor now inode path fileSize).goesDirect offset then some (path, data)
    else none
  | _ => none

def after (inode : ℕ) (s : AckedFile) : BufferCall → WriteBuffer × ObsClient
  | .write now path offset data fileSize =>
    (s.writeBuffer.write s.client now inode path offset data fileSize).2
  | .flush => (s.writeBuffer.flush s.client inode).2
  | .syncFlush => (s.writeBuffer.syncFlush s.client inode).2
  | .release => (s.writeBuffer.release s.client inode).2

/-- What is acknowledged after a call that flushes nothing: a write adds its data if it
returns, any other call has found no buffer and reports success. -/
def unflushed (inode : ℕ) (s : AckedFile) : BufferCall → Bytes
  | .write now path offset data fileSize =>
    if (s.writeBuffer.write s.client now inode path offset data fileSize).1.isOk then
      s.acked ++ data
    else s.acked
  | .flush | .syncFlush | .release => []

/-- One call. A flush that succeeds starts the count of acknowledged bytes anew. A write that
bypasses the buffer is stored when it is acknowledged, after such a flush. A call that never
returns keeps the file's mutex, and nothing is asked of it. -/
def step (inode : ℕ) (s : AckedFile) (call : BufferCall) : AckedFile where
  writeBuffer := (s.after inode call).1
  client := (s.after inode call).2
  acked :=
    match s.flushed inode call with
    | some (buf, _) =>
      match (s.writeBuffer.config.flushBuffer buf s.client).1 with
      | .err _ => s.acked
      | _ => []
    | none => s.unflushed inode call

def pending (inode : ℕ) (s : AckedFile) : Bytes :=
  match AList.lookup inode s.writeBuffer.buffers with
  | some buf => if buf.dirty then buf.data else []
  | none => []

def start (inode : ℕ) (wb : WriteBuffer) (cl : ObsClient) : AckedFile where
  writeBuffer := wb
  client := cl
  acked := pending inode ⟨wb, cl, []⟩

end AckedFile

namespace ObsClient

def Contains (cl : ObsClient) (path : Str) (data : Bytes) : Prop :=
  data = [] ∨ ∃ object ∈ AList.lookup path cl.objects, data <:+: object

/-- What a write puts in the place of the object at `path` with its own request, which comes after
`sent` others, if it does. -/
def overwritten (cl : ObsClient) (sent : ℕ) (path : Str) : Option (Str × Bytes) → Option Bytes
  | some (key, data) =>
    if key = path ∧ cl.faults (cl.log.length + sent) = none then some data else none
  | none => none

end ObsClient

namespace AckedFile

/-- The law of a flush: when it succeeds, the acknowledged bytes are in the object when the call
returns; when it fails, a later flush will still store them. -/
def Keeps (inode : ℕ) (s : AckedFile) (call : BufferCall) : Prop :=
  match s.flushed inode call with
  | some (buf, own) =>
    match s.writeBuffer.config.flushBuffer buf s.client with
    | (.ok _, _, _) => (s.after inode call).2.Contains buf.path (s.acked ++ own)
    | (.err _, _, _) => s.acked <:+: (s.step inode call).pending inode
    | (.loops, _, _) => True
  | none =>
    match call with
    | .write .. => True
    | .flush | .syncFlush | .release => s.acked = []

/-- Nothing acknowledged is at stake in a flush and in the request `put` that may follow it:
outside an upload there are no acknowledged bytes, or the request of the flush succeeds and
`put`, if it replaces the object, has them too; in an upload they are in what `put` puts in the
object's place or, if it does not, in the object already, or the upload of the rest does not
end. -/
def FlushSafe (cfg : WriteBufferConfig) (cl : ObsClient) (acked : Bytes) (buf : FileWriteBuffer)
    (put : Option (Str × Bytes)) : Prop :=
  match buf.multipart with
  | none =>
    acked = [] ∨ (cl.fault = none ∧ ∀ data ∈ cl.overwritten 1 buf.path put, acked <:+: data)
  | some mp =>
    (match cl.overwritten 0 buf.path put with
      | some data => acked <:+: data
      | none => cl.Contains buf.path acked) ∨
    (buf.dirty = true ∧ buf.data ≠ [] ∧ cfg.uploader.write mp buf.data = none)

end AckedFile

namespace ObsClient

end ObsClient

/-- Outside an upload, the bytes `acked` end the buffer's data and await a flush. -/
def FileWriteBuffer.Awaits (buf : FileWriteBuffer) (acked : Bytes) : Prop :=
  buf.multipart = none → acked <:+ buf.data ∧ (acked ≠ [] → buf.dirty = true)

/-- The acknowledged bytes await a flush in the file's buffer. -/
def AckedFile.Accounted (inode : ℕ) (s : AckedFile) : Prop :=
  match AList.lookup inode s.writeBuffer.buffers with
  | some buf => buf.Awaits s.acked
  | none => s.acked = []

namespace WriteBufferConfig
variable (cfg : WriteBufferConfig) {buf : FileWriteBuffer} {cl : ObsClient}

theorem flushBuffer_err {e : ErrorKind} {r : FileWriteBuffer × ObsClient}
    (h : cfg.flushBuffer buf cl = (.err e, r)) : r.1.data = [] := by
  rcases cfg.flushBuffer_cases buf cl with
    ⟨-, heq⟩ | ⟨-, ⟨-, ⟨-, heq⟩ | ⟨e', -, heq⟩⟩ | ⟨mp, -, ⟨-, heq⟩ | ⟨-, heq⟩⟩⟩
  all_goals
    rw [heq] at h
    cases h
  rfl

theorem flushedByWrite_some {now : Instant} {path : Str} {offset : ℕ} {data own : Bytes}
    {buf' : FileWriteBuffer}
    (h : cfg.flushedByWrite buf now path offset data = some (buf', own)) :
    (buf' = buf.placed offset data.length ∧ own = []) ∨
      (buf' = buf.appended now offset data ∧ own = data ∧ buf.multipart = none ∧
        buf.goesDirect offset = false) := by
  unfold flushedByWrite at h
  split at h
  · cases h
    exact .inl ⟨rfl, rfl⟩
  · next hdir =>
    cases hparts : cfg.flushParts (cfg.startMultipart (buf.appended now offset data) path) with
    | none =>
      rw [hparts] at h
      cases h
    | some parted =>
      rw [hparts] at h
      dsimp only at h
      split at h
      · next hc =>
        cases h
        rw [Bool.and_eq_true, Option.isNone_iff_eq_none] at hc
        have heq := cfg.flushParts_startMultipart hparts hc.2
        have hm := hc.2
        rw [heq] at hm
        exact .inr ⟨heq, rfl, hm, Bool.eq_false_iff.mpr hdir⟩
      · cases h

theorem writeLocked_flush_err {now : Instant} {path : Str} {offset : ℕ} {data own : Bytes}
    {buf' : FileWriteBuffer} {e : ErrorKind} {r : FileWriteBuffer × ObsClient}
    (hw : cfg.flushedByWrite buf now path offset data = some (buf', own))
    (hf : cfg.flushBuffer buf' cl = (.err e, r)) :
    cfg.writeLocked buf cl now path offset data = (.err e, r) := by
  unfold flushedByWrite at hw
  cases hd : buf.goesDirect offset with
  | true =>
    rw [if_pos hd] at hw
    cases hw
    rw [writeLocked_direct cfg now path offset data hd, hf]
  | false =>
    rw [if_neg (by rw [hd]; exact Bool.false_ne_true)] at hw
    rw [writeLocked_buffered cfg now path offset data hd]
    generalize cfg.flushParts (cfg.startMultipart (buf.appended now offset data) path) = parted
      at hw ⊢
    rcases parted with _ | parted
    · cases hw
    · dsimp only at hw ⊢
      split at hw
      · next hc =>
        cases hw
        rw [if_pos hc, hf]
      · cases hw

theorem writeLocked_unflushed {now : Instant} {path : Str} {offset : ℕ} {data : Bytes}
    (hw : cfg.flushedByWrite buf now path offset data = none) :
    (cfg.writeLocked buf cl now path offset data).2.1.multipart ≠ none ∨
      cfg.writeLocked buf cl now path offset data =
        (.ok data.length, buf.appended now offset data, cl) := by
  unfold flushedByWrite at hw
  cases hd : buf.goesDirect offset with
  | true =>
    rw [if_pos hd] at hw
    cases hw
  | false =>
    rw [if_neg (by rw [hd]; exact Bool.false_ne_true)] at hw
    rw [writeLocked_buffered cfg now path offset data hd]
    cases hparts : cfg.flushParts (cfg.startMultipart (buf.appended now offset data) path) with
    | none =>
      left
      intro hm
      rw [flushParts_none cfg hm] at hparts
      cases hparts
    | some parted =>
      rw [hparts] at hw
      dsimp only at hw ⊢
      split at hw
      · cases hw
      · next hc =>
        rw [if_neg hc]
        cases hm : parted.multipart with
        | none =>
          right
          rw [cfg.flushParts_startMultipart hparts hm]
        | some mp =>
          left
          exact Option.some_ne_none mp

end WriteBufferConfig

namespace AckedFile
variable {s : AckedFile} {inode : ℕ}

theorem accounted_of_nil (h : s.acked = []) : s.Accounted inode := by
  unfold Accounted
  rw [h]
  split
  · intro _
    exact ⟨List.nil_suffix, fun hne => absurd rfl hne⟩
  · rfl

theorem Accounted.bufferFor (h : s.Accounted inode) (now : Instant) (path : Str) (size : ℕ) :
    (s.writeBuffer.bufferFor now inode path size).Awaits s.acked := by
  unfold Accounted at h
  cases hb : AList.lookup inode s.writeBuffer.buffers with
  | some buf =>
    rw [hb] at h
    rw [WriteBuffer.bufferFor_some hb]
    exact h
  | none =>
    rw [hb] at h
    dsimp only at h
    rw [WriteBuffer.bufferFor_none hb, h]
    intro _
    exact ⟨List.nil_suffix, fun hne => absurd rfl hne⟩

theorem Accounted.flushed (h : s.Accounted inode) {call : BufferCall} {buf : FileWriteBuffer}
    {own : Bytes} (hf : s.flushed inode call = some (buf, own)) :
    buf.Awaits (s.acked ++ own) ∧
      (own = [] ∨ buf.multipart = none ∧ s.ownPut inode call = none) := by
  have hstored : ∀ {b : FileWriteBuffer} {o : Bytes},
      (AList.lookup inode s.writeBuffer.buffers).map (fun b => (b, ([] : Bytes))) = some (b, o) →
        b.Awaits (s.acked ++ o) ∧ (o = [] ∨ b.multipart = none ∧ s.ownPut inode call = none) := by
    intro b o hb
    obtain ⟨b', hb', heq⟩ := Option.map_eq_some_iff.mp hb
    cases heq
    unfold Accounted at h
    rw [hb'] at h
    rw [List.append_nil]
    exact ⟨h, .inl rfl⟩
  cases call with
  | write now path offset data fileSize =>
    have hb := h.bufferFor now path fileSize
    rcases s.writeBuffer.config.flushedByWrite_some hf with ⟨rfl, rfl⟩ | ⟨rfl, rfl, hm, hdir⟩
    · rw [List.append_nil]
      exact ⟨hb, .inl rfl⟩
    · refine ⟨fun _ => ⟨?_, fun _ => rfl⟩, .inr ⟨hm, ?_⟩⟩
      swap
      · exact if_neg (by rw [hdir]; exact Bool.false_ne_true)
      obtain ⟨pre, hpre⟩ := (hb hm).1
      exact ⟨pre, by rw [FileWriteBuffer.appended_data, ← hpre, List.append_assoc]⟩
  | flush => exact hstored hf
  | syncFlush => exact hstored hf
  | release => exact hstored hf

theorem pending_of_err {call : BufferCall} {buf : FileWriteBuffer} {own : Bytes}
    (hf : s.flushed inode call = some (buf, own)) {e : ErrorKind} {r : FileWriteBuffer × ObsClient}
    (he : s.writeBuffer.config.flushBuffer buf s.client = (.err e, r)) :
    (s.step inode call).pending inode = [] := by
  have hdata := s.writeBuffer.config.flushBuffer_err he
  have hinsert : ∀ cl acked, pending inode
      ⟨{ s.writeBuffer with buffers := s.writeBuffer.buffers.insert inode r.1 }, cl, acked⟩ =
        [] := by
    intro cl acked
    simp [pending, hdata]
  have hflush : ∀ acked, (AList.lookup inode s.writeBuffer.buffers).map
      (fun b => (b, ([] : Bytes))) = some (buf, own) →
      pending inode ⟨(s.writeBuffer.flush s.client inode).2.1,
        (s.writeBuffer.flush s.client inode).2.2, acked⟩ = [] := by
    intro acked hb
    obtain ⟨b, hb', heq⟩ := Option.map_eq_some_iff.mp hb
    cases heq
    unfold WriteBuffer.flush
    rw [hb']
    dsimp only
    rw [he]
    exact hinsert _ _
  cases call with
  | write now path offset data fileSize =>
    simp only [step, after]
    rw [WriteBuffer.write_eq, s.writeBuffer.config.writeLocked_flush_err hf he]
    exact hinsert _ _
  | flush => exact hflush _ hf
  | syncFlush => exact hflush _ hf
  | release =>
    obtain ⟨b, hb, -⟩ := Option.map_eq_some_iff.mp hf
    simp only [step, after, pending]
    rw [WriteBuffer.release_some hb]
    simp

theorem Keeps.acked {call : BufferCall} {f : FileWriteBuffer × Bytes}
    (hk : s.Keeps inode call) (hf : s.flushed inode call = some f) :
    (s.step inode call).acked = [] := by
  obtain ⟨buf, own⟩ := f
  have hacked : (s.step inode call).acked =
      match (s.writeBuffer.config.flushBuffer buf s.client).1 with
      | .err _ => s.acked
      | _ => [] := by
    simp only [step]
    rw [hf]
  unfold Keeps at hk
  rw [hf] at hk
  dsimp only at hk
  rw [hacked]
  cases he : s.writeBuffer.config.flushBuffer buf s.client with
  | mk r rest =>
    cases r with
    | ok _ => rfl
    | loops => rfl
    | err e =>
      rw [he] at hk
      dsimp only at hk ⊢
      rw [pending_of_err hf he] at hk
      exact List.eq_nil_of_infix_nil hk

theorem Accounted.step (h : s.Accounted inode) {call : BufferCall} (hk : s.Keeps inode call) :
    (s.step inode call).Accounted inode := by
  cases hf : s.flushed inode call with
  | some f => exact accounted_of_nil (hk.acked hf)
  | none =>
    have hacked : (s.step inode call).acked = s.unflushed inode call := by
      simp only [AckedFile.step]
      rw [hf]
    cases call with
    | write now path offset data fileSize =>
      have hb := h.bufferFor now path fileSize
      have hstep : (s.step inode (.write now path offset data fileSize)).writeBuffer.buffers =
          s.writeBuffer.buffers.insert inode (s.writeBuffer.config.writeLocked
            (s.writeBuffer.bufferFor now inode path fileSize) s.client now path offset
              data).2.1 := by
        simp only [AckedFile.step, after]
        rw [WriteBuffer.write_eq]
      unfold Accounted
      rw [hstep, hacked, unflushed, WriteBuffer.write_eq, Table.lookup_insert_if, if_pos rfl]
      intro hm
      rcases @WriteBufferConfig.writeLocked_unflushed _ _ s.client _ _ _ _ hf with hup | happ
      · exact absurd hm hup
      · rw [happ] at hm ⊢
        obtain ⟨⟨pre, hpre⟩, -⟩ := hb hm
        refine ⟨⟨pre, ?_⟩, fun _ => rfl⟩
        simp only [Outcome.isOk_ok, if_true, FileWriteBuffer.appended_data, ← hpre,
          List.append_assoc]
    | flush => exact accounted_of_nil hacked
    | syncFlush => exact accounted_of_nil hacked
    | release => exact accounted_of_nil hacked

end AckedFile

end ObsFuse
