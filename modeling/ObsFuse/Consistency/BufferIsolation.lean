import ObsFuse.Cache.FileBuffer
import ObsFuse.Lib.Unwinding
import Mathlib.Data.List.Induction

/-! # Files in the write buffer do not interfere

All files share the buffer map, the client and the uploader. On storage that does not fail, a
call writes whole objects to the key of its own file, and what it writes is decided by the
file's buffer alone. -/

namespace ObsFuse
open Lib

/-! ### The writes of one call -/

/-- The client after whole-object writes to one path, in this order. -/
def ObsClient.storedEach (cl : ObsClient) (path : Str) (writes : List Bytes) : ObsClient :=
  writes.foldl (fun cl data => cl.stored path data) cl

namespace ObsClient

theorem storedEach_append (cl : ObsClient) (path : Str) (ws vs : List Bytes) :
    cl.storedEach path (ws ++ vs) = (cl.storedEach path ws).storedEach path vs :=
  List.foldl_append

theorem Reliable.storedEach {cl : ObsClient} (h : cl.Reliable) (path : Str) (ws : List Bytes) :
    (cl.storedEach path ws).Reliable := by
  induction ws generalizing cl with
  | nil => exact h
  | cons data ws ih => exact ih (h.stored path data)

theorem lookup_storedEach (cl : ObsClient) (path k : Str) (ws : List Bytes) :
    AList.lookup k (cl.storedEach path ws).objects =
      if k = path then ws.getLast?.or (AList.lookup path cl.objects)
      else AList.lookup k cl.objects := by
  induction ws using List.reverseRecOn with
  | nil =>
    split
    · next hk =>
      rw [hk]
      rfl
    · rfl
  | append_singleton ws data ih =>
    rw [storedEach_append]
    show AList.lookup k ((cl.storedEach path ws).stored path data).objects = _
    rw [stored_lookup, ih, List.getLast?_concat]
    split
    · rfl
    · rfl

end ObsClient

namespace WriteBufferConfig
variable {cfg : WriteBufferConfig}

theorem flushParts_returns (hp : 0 < cfg.partSize) (buf : FileWriteBuffer) :
    ∃ buf', cfg.flushParts buf = some buf' ∧ buf'.path = buf.path := by
  unfold flushParts
  split
  · next hm =>
    obtain ⟨rest, mp, hloop⟩ := cfg.partLoop_returns hp _ buf (Nat.lt_succ_self _) hm
    exact ⟨_, hloop, (cfg.partLoop_keeps hloop).1⟩
  · exact ⟨buf, rfl, rfl⟩

/-- A flush succeeds; its writes and the buffer it leaves are the same on any storage. -/
theorem flushBuffer_writes (hp : 0 < cfg.partSize) (buf : FileWriteBuffer) :
    ∃ buf' ws, buf'.path = buf.path ∧ ∀ cl : ObsClient, cl.Reliable →
      cfg.flushBuffer buf cl = (.ok (), buf', cl.storedEach buf.path ws) := by
  by_cases hidle : buf.dirty = false ∨ buf.data = []
  · exact ⟨buf, [], rfl, fun _ _ => cfg.flushBuffer_idle hidle⟩
  · obtain ⟨hd, hne⟩ := not_or.mp hidle
    rw [Bool.not_eq_false] at hd
    rcases Option.eq_none_or_eq_some buf.multipart with hm | ⟨mp, hm⟩
    · exact ⟨buf.flushed, [buf.data], rfl,
        fun _ hr => cfg.flushBuffer_stores hd hne hm hr.fault⟩
    · obtain ⟨mp', hw⟩ := cfg.uploader.write_returns hp mp buf.data
      refine ⟨buf.flushed, [], rfl, ?_⟩
      intro cl _
      rw [cfg.flushBuffer_upload hd hne hm, hw]
      rfl

theorem writeLocked_writes (hp : 0 < cfg.partSize) (buf : FileWriteBuffer) (now : Instant)
    (offset : ℕ) (data : Bytes) :
    ∃ buf' ws, buf'.path = buf.path ∧ ∀ cl : ObsClient, cl.Reliable →
      cfg.writeLocked buf cl now buf.path offset data =
        (.ok data.length, buf', cl.storedEach buf.path ws) := by
  cases hdir : buf.goesDirect offset with
  | true =>
    obtain ⟨buf', ws, hpath, hflush⟩ := flushBuffer_writes hp (buf.placed offset data.length)
    refine ⟨buf'.grown (u64 (offset + data.length)), ws ++ [data], hpath, ?_⟩
    intro cl hr
    rw [cfg.writeLocked_direct now buf.path offset data hdir, hflush cl hr]
    dsimp only
    rw [ObsClient.write_stored (hr.storedEach _ _).fault, ObsClient.storedEach_append]
    rfl
  | false =>
    obtain ⟨parted, hparts, hpath⟩ := flushParts_returns hp
      (cfg.startMultipart (buf.appended now offset data) buf.path)
    have hsame : parted.path = buf.path :=
      hpath.trans (@startMultipart_keeps cfg (buf.appended now offset data) buf.path).1
    by_cases hfull : (parted.needsFlush cfg.bufferSize && parted.multipart.isNone) = true
    · obtain ⟨buf', ws, hpath', hflush⟩ := flushBuffer_writes hp parted
      refine ⟨buf', ws, hpath'.trans hsame, ?_⟩
      intro cl hr
      rw [cfg.writeLocked_buffered now buf.path offset data hdir, hparts]
      dsimp only
      rw [if_pos hfull, hflush cl hr, hsame]
    · refine ⟨parted, [], hsame, ?_⟩
      intro cl _
      rw [cfg.writeLocked_buffered now buf.path offset data hdir, hparts]
      dsimp only
      rw [if_neg hfull]
      rfl

end WriteBufferConfig

/-! ### Calls on several files -/

/-- The calls on the write buffer, each for the file of one inode. -/
inductive FileCall where
  | write (now : Instant) (inode offset : ℕ) (data : Bytes) (fileSize : ℕ)
  | flush (inode : ℕ)
  | syncFlush (inode : ℕ)
  | release (inode : ℕ)
  | truncate (now : Instant) (inode size : ℕ)
  deriving DecidableEq, Repr

def FileCall.inode : FileCall → ℕ
  | .write _ inode .. | .flush inode | .syncFlush inode | .release inode
  | .truncate _ inode _ => inode

structure SharedBuffers where
  writeBuffer : WriteBuffer
  client : ObsClient

namespace SharedBuffers

section
variable (key : ℕ → Str)

/-- A call with the key of its inode: whether it returns `Ok`, and the next state. -/
def call (s : SharedBuffers) : FileCall → Bool × SharedBuffers
  | .write now inode offset data fileSize =>
    let (r, wb, cl) := s.writeBuffer.write s.client now inode (key inode) offset data fileSize
    (r.isOk, ⟨wb, cl⟩)
  | .flush inode =>
    let (r, wb, cl) := s.writeBuffer.flush s.client inode
    (r.isOk, ⟨wb, cl⟩)
  | .syncFlush inode =>
    let (r, wb, cl) := s.writeBuffer.syncFlush s.client inode
    (r.isOk, ⟨wb, cl⟩)
  | .release inode =>
    let (r, wb, cl) := s.writeBuffer.release s.client inode
    (r.isOk, ⟨wb, cl⟩)
  | .truncate now inode size =>
    let (r, wb, cl) := s.writeBuffer.truncate s.client now inode (key inode) size
    (r.isOk, ⟨wb, cl⟩)

def step (s : SharedBuffers) (c : FileCall) : SharedBuffers := (s.call key c).2

/-- Storage does not fail, and every buffer is for the key of its inode. -/
structure OwnKeys (cfg : WriteBufferConfig) (s : SharedBuffers) : Prop where
  config : s.writeBuffer.config = cfg
  reliable : s.client.Reliable
  path : ∀ inode, ∀ buf ∈ s.writeBuffer.buffers.lookup inode, buf.path = key inode

/-- The inode's buffer and the object under its key are the same. -/
structure SameFile (inode : ℕ) (s t : SharedBuffers) : Prop where
  buffer : s.writeBuffer.buffers.lookup inode = t.writeBuffer.buffers.lookup inode
  object : s.client.objects.lookup (key inode) = t.client.objects.lookup (key inode)

end

variable {key : ℕ → Str} {cfg : WriteBufferConfig}

/-- What a call does: it gives the file the buffer `b` and writes `ws` to its key. -/
structure Does (key : ℕ → Str) (inode : ℕ) (b : Option FileWriteBuffer) (ws : List Bytes)
    (s : SharedBuffers) (r : Bool × SharedBuffers) : Prop where
  ok : r.1 = true
  config : r.2.writeBuffer.config = s.writeBuffer.config
  client : r.2.client = s.client.storedEach (key inode) ws
  buffer : ∀ j, AList.lookup j r.2.writeBuffer.buffers =
    if j = inode then b else AList.lookup j s.writeBuffer.buffers

theorem flush_does (hp : 0 < cfg.partSize) {inode : ℕ} {b : Option FileWriteBuffer}
    (hb : ∀ buf ∈ b, buf.path = key inode) :
    ∃ b' ws, (∀ buf ∈ b', buf.path = key inode) ∧ ∀ s : SharedBuffers,
      s.OwnKeys key cfg → s.writeBuffer.buffers.lookup inode = b →
        Does key inode b' ws s (s.call key (.flush inode)) := by
  cases b with
  | none =>
    refine ⟨none, [], hb, ?_⟩
    intro s _ hlook
    simp only [call, WriteBuffer.flush, hlook]
    refine ⟨rfl, rfl, rfl, ?_⟩
    intro j
    split
    · next hj => rw [hj, hlook]
    · rfl
  | some buf =>
    obtain ⟨buf', ws, hpath, hflush⟩ := cfg.flushBuffer_writes hp buf
    have hkey := hb buf rfl
    refine ⟨some buf', ws, ?_, ?_⟩
    · intro c hc
      cases hc
      exact hpath.trans hkey
    · intro s hs hlook
      simp only [call, WriteBuffer.flush, hlook]
      rw [hs.config, hflush s.client hs.reliable, hkey]
      exact ⟨rfl, hs.config.symm, rfl, fun j => Table.lookup_insert_if ..⟩

theorem release_does (hp : 0 < cfg.partSize) {inode : ℕ} {b : Option FileWriteBuffer}
    (hb : ∀ buf ∈ b, buf.path = key inode) :
    ∃ ws, ∀ s : SharedBuffers, s.OwnKeys key cfg → s.writeBuffer.buffers.lookup inode = b →
      Does key inode none ws s (s.call key (.release inode)) := by
  cases b with
  | none =>
    refine ⟨[], ?_⟩
    intro s _ hlook
    simp only [call]
    rw [WriteBuffer.release_none hlook]
    refine ⟨rfl, rfl, rfl, ?_⟩
    intro j
    split
    · next hj => rw [hj, hlook]
    · rfl
  | some buf =>
    obtain ⟨buf', ws, -, hflush⟩ := cfg.flushBuffer_writes hp buf
    refine ⟨ws, ?_⟩
    intro s hs hlook
    simp only [call]
    rw [WriteBuffer.release_some hlook, hs.config, hflush s.client hs.reliable, hb buf rfl]
    exact ⟨rfl, hs.config.symm, rfl, fun j => Table.lookup_erase_if ..⟩

theorem bufferFor_path {inode : ℕ} {b : Option FileWriteBuffer}
    (hb : ∀ buf ∈ b, buf.path = key inode) (now : Instant) (size : ℕ) :
    (b.getD (.new now inode (key inode) size)).path = key inode := by
  cases b with
  | none => rfl
  | some buf => exact hb buf rfl

theorem write_does (hp : 0 < cfg.partSize) {inode : ℕ} {b : Option FileWriteBuffer}
    (hb : ∀ buf ∈ b, buf.path = key inode) (now : Instant) (offset : ℕ) (data : Bytes)
    (fileSize : ℕ) :
    ∃ b' ws, (∀ buf ∈ b', buf.path = key inode) ∧ ∀ s : SharedBuffers,
      s.OwnKeys key cfg → s.writeBuffer.buffers.lookup inode = b →
        Does key inode b' ws s (s.call key (.write now inode offset data fileSize)) := by
  have hkey := bufferFor_path hb now fileSize
  obtain ⟨buf', ws, hpath, hwrite⟩ :=
    cfg.writeLocked_writes hp (b.getD (.new now inode (key inode) fileSize)) now offset data
  rw [hkey] at hpath hwrite
  refine ⟨some buf', ws, ?_, ?_⟩
  · intro c hc
    cases hc
    exact hpath
  · intro s hs hlook
    simp only [call]
    rw [WriteBuffer.write_eq, WriteBuffer.bufferFor, hlook, hs.config,
      hwrite s.client hs.reliable]
    exact ⟨rfl, hs.config.symm, rfl, fun j => Table.lookup_insert_if ..⟩

theorem truncate_does {inode : ℕ} {b : Option FileWriteBuffer}
    (hb : ∀ buf ∈ b, buf.path = key inode) (now : Instant) (size : ℕ) :
    ∃ b' ws, (∀ buf ∈ b', buf.path = key inode) ∧ ∀ s : SharedBuffers,
      s.OwnKeys key cfg → s.writeBuffer.buffers.lookup inode = b →
        Does key inode b' ws s (s.call key (.truncate now inode size)) := by
  have hkey := bufferFor_path hb now size
  refine ⟨some ((b.getD (.new now inode (key inode) size)).truncated size),
    if size = 0 then [[]] else [], ?_, ?_⟩
  · intro c hc
    cases hc
    exact hkey
  · intro s hs hlook
    simp only [call]
    rw [WriteBuffer.truncate_reliable hs.reliable, WriteBuffer.bufferFor, hlook]
    refine ⟨rfl, rfl, ?_, fun j => Table.lookup_insert_if ..⟩
    dsimp only
    split
    · rfl
    · rfl

/-- What a call does to its own file is decided by the file's buffer alone. -/
theorem call_does (hp : 0 < cfg.partSize) (c : FileCall) {b : Option FileWriteBuffer}
    (hb : ∀ buf ∈ b, buf.path = key c.inode) :
    ∃ b' ws, (∀ buf ∈ b', buf.path = key c.inode) ∧ ∀ s : SharedBuffers,
      s.OwnKeys key cfg → s.writeBuffer.buffers.lookup c.inode = b →
        Does key c.inode b' ws s (s.call key c) := by
  cases c with
  | write now inode offset data fileSize => exact write_does hp hb now offset data fileSize
  | flush inode | syncFlush inode => exact flush_does hp hb
  | release inode =>
    obtain ⟨ws, h⟩ := release_does hp hb
    exact ⟨none, ws, nofun, h⟩
  | truncate now inode size => exact truncate_does hb now size

theorem OwnKeys.does {s : SharedBuffers} (h : s.OwnKeys key cfg) (hp : 0 < cfg.partSize)
    (c : FileCall) : ∃ b ws, (∀ buf ∈ b, buf.path = key c.inode) ∧
      Does key c.inode b ws s (s.call key c) := by
  obtain ⟨b, ws, hb, hdoes⟩ := call_does hp c (h.path c.inode)
  exact ⟨b, ws, hb, hdoes s h rfl⟩

theorem OwnKeys.step {s : SharedBuffers} (h : s.OwnKeys key cfg) (hp : 0 < cfg.partSize)
    (c : FileCall) : (s.step key c).OwnKeys key cfg := by
  obtain ⟨b, ws, hb, hdoes⟩ := h.does hp c
  refine ⟨hdoes.config.trans h.config, ?_, ?_⟩
  · show (s.call key c).2.client.Reliable
    rw [hdoes.client]
    exact h.reliable.storedEach _ _
  · intro j buf hbuf
    rw [Option.mem_def, SharedBuffers.step, hdoes.buffer] at hbuf
    split at hbuf
    · next hj =>
      rw [hj]
      exact hb buf hbuf
    · exact h.path j buf hbuf

theorem unwinds (hkey : Function.Injective key) (hp : 0 < cfg.partSize) (inode : ℕ) :
    Unwinds (step key) (OwnKeys key cfg) (SameFile key inode) fun c => c.inode = inode where
  keeps s c hs := hs.step hp c
  owned s t c hs ht hsame hc := by
    subst hc
    obtain ⟨b, ws, -, hdoes⟩ := call_does hp c (hs.path c.inode)
    have hleft := hdoes s hs rfl
    have hright := hdoes t ht hsame.buffer.symm
    refine ⟨?_, ?_⟩
    · simp only [SharedBuffers.step]
      rw [hleft.buffer, hright.buffer, if_pos rfl, if_pos rfl]
    · simp only [SharedBuffers.step]
      rw [hleft.client, hright.client, ObsClient.lookup_storedEach, ObsClient.lookup_storedEach,
        if_pos rfl, if_pos rfl, hsame.object]
  foreign s t c hs _ hsame hc := by
    obtain ⟨b, ws, -, hdoes⟩ := hs.does hp c
    have hother : inode ≠ c.inode := fun h => hc h.symm
    refine ⟨?_, ?_⟩
    · simp only [SharedBuffers.step]
      rw [hdoes.buffer, if_neg hother, hsame.buffer]
    · simp only [SharedBuffers.step]
      rw [hdoes.client, ObsClient.lookup_storedEach, if_neg (hkey.ne hother), hsame.object]

theorem new_ownKeys (key : ℕ → Str) (cfg : WriteBufferConfig) {cl : ObsClient}
    (hr : cl.Reliable) : (⟨.new cfg, cl⟩ : SharedBuffers).OwnKeys key cfg :=
  ⟨rfl, hr, nofun⟩

end SharedBuffers

/-- In any interleaving of calls for files with keys of their own, every call succeeds, and
each file ends with the buffer and the object that its own calls alone give it. -/
theorem buffers_do_not_interfere {key : ℕ → Str} (hkey : Function.Injective key)
    {cfg : WriteBufferConfig} (hp : 0 < cfg.partSize) {cl : ObsClient} (hr : cl.Reliable)
    (calls : List FileCall) :
    Along (SharedBuffers.step key) (fun s c => (s.call key c).1 = true) ⟨.new cfg, cl⟩ calls ∧
      ∀ inode, SharedBuffers.SameFile key inode
        (run (SharedBuffers.step key) ⟨.new cfg, cl⟩ calls)
        (run (SharedBuffers.step key) ⟨.new cfg, cl⟩ (calls.filter fun c => c.inode = inode)) := by
  have hnew := SharedBuffers.new_ownKeys key cfg hr
  refine ⟨?_, ?_⟩
  · have hok : ∀ (s : SharedBuffers) c, s.OwnKeys key cfg → (s.call key c).1 = true := by
      intro s c hs
      obtain ⟨b, ws, -, hdoes⟩ := hs.does hp c
      exact hdoes.ok
    exact along_of_invariant (fun s c (h : s.OwnKeys key cfg) => h.step hp c) hok hnew
  · intro inode
    exact (SharedBuffers.unwinds hkey hp inode).run_filter hnew hnew ⟨rfl, rfl⟩ calls

/-- Two files, the second written between a write and the release of the first. -/
theorem two_files_do_not_interfere :
    let key : ℕ → Str := fun inode => List.replicate inode 'k'
    let calls : List FileCall :=
      [.write 0 2 0 [1, 2] 0, .truncate 0 3 0, .write 1 3 0 [7] 0, .flush 3, .release 2,
        .write 1 3 5 [8] 0]
    Along (SharedBuffers.step key) (fun s c => (s.call key c).1 = true)
        ⟨.new .default, .fresh⟩ calls ∧
      ∀ inode, SharedBuffers.SameFile key inode
        (run (SharedBuffers.step key) ⟨.new .default, .fresh⟩ calls)
        (run (SharedBuffers.step key) ⟨.new .default, .fresh⟩
          (calls.filter fun c => c.inode = inode)) := by
  intro key calls
  exact buffers_do_not_interfere (List.replicate_left_injective 'k') (by decide) (fun _ => rfl)
    calls

end ObsFuse
