import ObsFuse.Fs.WritePath
import ObsFuse.Fs.Mount
import ObsFuse.Lib.Runs
import ObsFuse.Lib.Overlay

/-! # A series of writes and the object it leaves

The writes of one file, from a state in which no buffer of the file exists, up to the
release that flushes them. The write buffer keeps the bytes in the order of the calls:
what it stores is given by `storedObject` for every series of offsets, and compared with
the positional meaning of the writes. -/

namespace ObsFuse
open Lib

structure WriteCall where
  now : Now
  fh : ℕ
  offset : ℕ
  data : Bytes

def WriteCall.placement (w : WriteCall) : ℕ × Bytes := (w.offset, w.data)

def ObsFsCore.writeStep (inode : ℕ) (s : ObsFsCore) (w : WriteCall) : ObsFsCore :=
  (s.doWrite w.now inode w.fh w.offset w.data).2

/-- The writes are all appended to the buffer: the file was empty when the buffer was made,
or each write continues the last one. -/
def KeepsBuffering (o : ℕ) (ws : List (ℕ × Bytes)) : Prop := o = 0 ∨ Contiguous 0 ws

instance (o : ℕ) (ws : List (ℕ × Bytes)) : Decidable (KeepsBuffering o ws) :=
  inferInstanceAs (Decidable (_ ∨ _))

/-- The object that the write buffer leaves: content `c` before, `o` the file size known
when the buffer was made, `ws` the writes. -/
def storedObject (c : Bytes) (o : ℕ) (ws : List (ℕ × Bytes)) : Bytes :=
  if KeepsBuffering o ws then
    if written ws = [] then c else written ws
  else (ws.getLast?.map (·.2)).getD c

/-- When that object is the old content with the writes laid over it. -/
def WritesFit (c : Bytes) (o : ℕ) (ws : List (ℕ × Bytes)) : Prop :=
  if Contiguous 0 ws then written ws = [] ∨ c.length ≤ (written ws).length
  else if o = 0 then
    written ws = [] ∨
      (written ws).length = extent c.length ws ∧
        ∀ x < (written ws).length, (written ws)[x]? = due 0 c ws x
  else ∀ w ∈ ws.getLast?, (w.2 = [] ∨ w.1 = 0) ∧ extent c.length ws.dropLast ≤ w.2.length

/-! ### What the buffer holds in the course of the writes -/

/-- The file's buffer and the client after the writes `ws`. -/
structure AfterWrites (c : Bytes) (o : ℕ) (key : Str) (ws : List (ℕ × Bytes))
    (buf : FileWriteBuffer) (cl : ObsClient) : Prop where
  path : buf.path = key
  dirty : buf.data ≠ [] → buf.dirty = true
  multipart : buf.multipart = none
  sequential : buf.sequentialWrite = true ↔ Contiguous 0 ws
  next : Contiguous 0 ws → buf.nextOffset = (written ws).length
  known : o ≤ buf.size
  reliable : cl.Reliable
  held : KeepsBuffering o ws →
    buf.originalSize = o ∧ buf.data = written ws ∧ AList.lookup key cl.objects = some c
  sent : ¬KeepsBuffering o ws →
    0 < buf.originalSize ∧ buf.data = [] ∧
      AList.lookup key cl.objects = ws.getLast?.map (·.2)

theorem AfterWrites.fresh {c : Bytes} {cl : ObsClient} {key : Str} (hr : cl.Reliable)
    (hc : AList.lookup key cl.objects = some c) (now : Instant) (inode o : ℕ) :
    AfterWrites c o key [] (.new now inode key o) cl where
  path := rfl
  dirty h := absurd rfl h
  multipart := rfl
  sequential := by simp [FileWriteBuffer.new, Contiguous]
  next _ := rfl
  known := le_rfl
  reliable := hr
  held _ := ⟨rfl, rfl, hc⟩
  sent h := absurd (.inr trivial) h

theorem contiguous_snoc {n : ℕ} {ws : List (ℕ × Bytes)} {w : ℕ × Bytes} :
    Contiguous n (ws ++ [w]) ↔ Contiguous n ws ∧ w.1 = n + (written ws).length := by
  simp [contiguous_append, Contiguous]

namespace AfterWrites
variable {c : Bytes} {o : ℕ} {key : Str} {ws : List (ℕ × Bytes)} {buf : FileWriteBuffer}
  {cl : ObsClient}

theorem placed_sequential (h : AfterWrites c o key ws buf cl) (w : ℕ × Bytes) (len : ℕ) :
    (buf.placed w.1 len).sequentialWrite = true ↔ Contiguous 0 (ws ++ [w]) := by
  rw [FileWriteBuffer.placed_sequentialWrite, h.sequential, contiguous_snoc, Nat.zero_add]
  exact and_congr_right fun hc => by rw [h.next hc]

/-- The buffer is bypassed from the first write on that is not appended. -/
theorem goesDirect_iff (h : AfterWrites c o key ws buf cl) (w : ℕ × Bytes) :
    buf.goesDirect w.1 = true ↔ ¬KeepsBuffering o (ws ++ [w]) := by
  rw [FileWriteBuffer.goesDirect_iff, ← FileWriteBuffer.placed_sequentialWrite buf w.1 0,
    h.placed_sequential]
  by_cases hk : KeepsBuffering o ws
  · rw [(h.held hk).1, KeepsBuffering, not_or, Nat.pos_iff_ne_zero, and_comm]
  · have hs := (h.sent hk).1
    simp only [KeepsBuffering, contiguous_snoc] at hk ⊢
    tauto

theorem step (h : AfterWrites c o key ws buf cl) (cfg : WriteBufferConfig) (now : Instant)
    (w : ℕ × Bytes) (ht : (written ws).length + w.2.length < cfg.multipartThreshold)
    (hb : (written ws).length + w.2.length < cfg.bufferSize) :
    AfterWrites c o key (ws ++ [w]) (cfg.writeLocked buf cl now key w.1 w.2).2.1
      (cfg.writeLocked buf cl now key w.1 w.2).2.2 := by
  have hnext : Contiguous 0 (ws ++ [w]) →
      u64 (w.1 + w.2.length) = (written (ws ++ [w])).length := by
    intro hc
    have hw := (contiguous_snoc.mp hc).2
    have hlt := cfg.bufferSize_lt
    rw [u64_eq (by omega), written_append, List.length_append, written_cons, written_nil,
      List.append_nil]
    omega
  have hmono : KeepsBuffering o (ws ++ [w]) → KeepsBuffering o ws := by
    intro hc
    rcases hc with ho | hc
    · exact .inl ho
    · exact .inr (contiguous_snoc.mp hc).1
  by_cases hk : KeepsBuffering o (ws ++ [w])
  · have hd : buf.goesDirect w.1 = false := by
      simpa [hk] using (h.goesDirect_iff w).not
    obtain ⟨horig, hdata, hobj⟩ := h.held (hmono hk)
    rw [cfg.writeLocked_append now key w.1 w.2 hd h.multipart (by rwa [hdata]) (by rwa [hdata])]
    exact {
      path := h.path
      dirty := fun _ => rfl
      multipart := h.multipart
      sequential := h.placed_sequential w w.2.length
      next := hnext
      known := le_trans h.known (le_max_left ..)
      reliable := h.reliable
      held := fun _ => ⟨horig, by simp [hdata], hobj⟩
      sent := fun hn => absurd hk hn }
  · have hd : buf.goesDirect w.1 = true := (h.goesDirect_iff w).mpr hk
    rw [cfg.writeLocked_direct_reliable now key w.1 w.2 hd h.dirty h.multipart h.reliable]
    have ho : 0 < o := by
      rw [KeepsBuffering] at hk
      omega
    have horig : 0 < buf.originalSize := ((buf.goesDirect_iff w.1).mp hd).2
    split
    · next hnil =>
      exact {
        path := h.path
        dirty := fun hne => absurd hnil hne
        multipart := h.multipart
        sequential := h.placed_sequential w w.2.length
        next := hnext
        known := le_trans h.known (le_max_left ..)
        reliable := h.reliable
        held := fun hn => absurd hn hk
        sent := fun _ => ⟨horig, hnil, by simp⟩ }
    · next hne =>
      exact {
        path := h.path
        dirty := fun hne => absurd rfl hne
        multipart := rfl
        sequential := h.placed_sequential w w.2.length
        next := hnext
        known := le_trans h.known (le_max_left ..)
        reliable := h.reliable
        held := fun hn => absurd hn hk
        sent := fun _ => ⟨lt_of_lt_of_le ho h.known, rfl, by simp⟩ }

theorem flush_object (h : AfterWrites c o key ws buf cl) (cfg : WriteBufferConfig)
    (hne : ws ≠ []) :
    AList.lookup key (cfg.flushBuffer buf cl).2.2.objects = some (storedObject c o ws) := by
  rw [cfg.flushBuffer_reliable h.dirty h.multipart h.reliable, storedObject]
  by_cases hk : KeepsBuffering o ws
  · obtain ⟨-, hdata, hobj⟩ := h.held hk
    by_cases hw : written ws = []
    · simp [hk, hdata, hw, hobj]
    · simp [hk, hdata, hw, h.path]
  · obtain ⟨-, hdata, hobj⟩ := h.sent hk
    simp [hk, hdata, hobj, List.getLast?_eq_some_getLast hne]

end AfterWrites

/-! ### The whole series on the core -/

/-- A file whose key holds `c`, without a buffer, on storage that does not fail. -/
structure UnbufferedFile (s : ObsFsCore) (inode : ℕ) (path : Str) (c : Bytes) : Prop where
  named : s.inodeMgr.getPath inode = some path
  object : AList.lookup (s.obsPath path) s.obsClient.objects = some c
  unbuffered : AList.lookup inode s.writeBuffer.buffers = none
  reliable : s.obsClient.Reliable

/-- The size known of the file when the first of the writes makes its buffer. -/
def ObsFsCore.sizeAtFirst (s : ObsFsCore) (inode : ℕ) : List WriteCall → ℕ
  | [] => 0
  | w :: _ => s.knownSize w.now.instant inode

/-- The core after the writes `ws` of the file. -/
structure CoreAfterWrites (s : ObsFsCore) (inode : ℕ) (path key : Str) (cfg : WriteBufferConfig)
    (c : Bytes) (o : ℕ) (ws : List (ℕ × Bytes)) : Prop where
  named : s.inodeMgr.getPath inode = some path
  keyed : s.obsPath path = key
  config : s.writeBuffer.config = cfg
  buffer : ∃ buf, AList.lookup inode s.writeBuffer.buffers = some buf ∧
    AfterWrites c o key ws buf s.obsClient

section
variable {s : ObsFsCore} {inode : ℕ} {path key : Str} {cfg : WriteBufferConfig} {c : Bytes}
  {o : ℕ} {ws : List (ℕ × Bytes)}

theorem ObsFsCore.writeStep_buffer (hp : s.inodeMgr.getPath inode = some path)
    (hk : s.obsPath path = key) (w : WriteCall) :
    let buf := s.writeBuffer.bufferFor w.now.instant inode key (s.knownSize w.now.instant inode)
    let r := s.writeBuffer.config.writeLocked buf s.obsClient w.now.instant key w.offset w.data
    (s.writeStep inode w).inodeMgr.getPath inode = some path ∧
      (s.writeStep inode w).obsPath path = key ∧
      (s.writeStep inode w).writeBuffer =
        { s.writeBuffer with buffers := s.writeBuffer.buffers.insert inode r.2.1 } ∧
      (s.writeStep inode w).obsClient = r.2.2 := by
  obtain ⟨hwb, hcl, -⟩ := s.doWrite_buffer hp w.now w.fh w.offset w.data
  rw [ObsFsCore.bufferWrite, hk, WriteBuffer.write_eq] at hwb hcl
  refine ⟨?_, ?_, hwb, hcl⟩
  · rw [ObsFsCore.writeStep, ObsFsCore.doWrite_getPath, hp]
  · rw [ObsFsCore.writeStep, ObsFsCore.obsPath_congr (s.doWrite_config ..), hk]

/-- What the locked sections of writes below both thresholds make of the file's buffer. -/
structure BufferAfter (after : List (ℕ × Bytes) → FileWriteBuffer → ObsClient → Prop)
    (s : ObsFsCore) (inode : ℕ) (path key : Str) (cfg : WriteBufferConfig)
    (ws : List (ℕ × Bytes)) : Prop where
  named : s.inodeMgr.getPath inode = some path
  keyed : s.obsPath path = key
  config : s.writeBuffer.config = cfg
  buffer : ∃ buf, AList.lookup inode s.writeBuffer.buffers = some buf ∧ after ws buf s.obsClient

/-- The locked section of a further write keeps the description. -/
def KeptByWrites (cfg : WriteBufferConfig) (key : Str)
    (after : List (ℕ × Bytes) → FileWriteBuffer → ObsClient → Prop) : Prop :=
  ∀ ws buf cl now (w : ℕ × Bytes), after ws buf cl →
    (written ws).length + w.2.length < cfg.multipartThreshold →
    (written ws).length + w.2.length < cfg.bufferSize →
    after (ws ++ [w]) (cfg.writeLocked buf cl now key w.1 w.2).2.1
      (cfg.writeLocked buf cl now key w.1 w.2).2.2

section
variable {after : List (ℕ × Bytes) → FileWriteBuffer → ObsClient → Prop}

theorem BufferAfter.first (hkept : KeptByWrites cfg key after)
    (hp : s.inodeMgr.getPath inode = some path) (hk : s.obsPath path = key)
    (hc : s.writeBuffer.config = cfg) (w : WriteCall)
    (h : after ws
      (s.writeBuffer.bufferFor w.now.instant inode key (s.knownSize w.now.instant inode))
      s.obsClient)
    (ht : (written ws).length + w.data.length < cfg.multipartThreshold)
    (hb : (written ws).length + w.data.length < cfg.bufferSize) :
    BufferAfter after (s.writeStep inode w) inode path key cfg (ws ++ [w.placement]) := by
  obtain ⟨hnamed, hkeyed, hwb, hcl⟩ := ObsFsCore.writeStep_buffer hp hk w
  rw [hc] at hwb hcl
  have hstep := hkept _ _ _ w.now.instant w.placement h ht hb
  refine ⟨hnamed, hkeyed, ?_, ?_⟩
  · rw [hwb]
    exact hc
  · refine ⟨_, ?_, hcl ▸ hstep⟩
    rw [hwb]
    exact AList.lookup_insert _

theorem BufferAfter.run (hkept : KeptByWrites cfg key after)
    (h : BufferAfter after s inode path key cfg ws) (calls : List WriteCall)
    (ht : (written ws).length + (written (calls.map (·.placement))).length <
      cfg.multipartThreshold)
    (hb : (written ws).length + (written (calls.map (·.placement))).length < cfg.bufferSize) :
    BufferAfter after (run (ObsFsCore.writeStep inode) s calls) inode path key cfg
      (ws ++ calls.map (·.placement)) := by
  induction calls generalizing s ws with
  | nil => simpa using h
  | cons w calls ih =>
    obtain ⟨buf, hbuf, haw⟩ := h.buffer
    simp only [List.map_cons, written_cons, List.length_append] at ht hb
    have hstep := BufferAfter.first hkept h.named h.keyed h.config w
      (by rwa [WriteBuffer.bufferFor_some hbuf]) (by simp only [WriteCall.placement] at ht; omega)
      (by simp only [WriteCall.placement] at hb; omega)
    rw [run_cons, List.map_cons, List.append_cons]
    apply ih hstep
    · simp only [written_append, written_cons, written_nil, List.append_nil, List.length_append]
      omega
    · simp only [written_append, written_cons, written_nil, List.append_nil, List.length_append]
      omega

end

theorem AfterWrites.keptByWrites : KeptByWrites cfg key (AfterWrites c o key) :=
  fun _ _ _ now w h ht hb => h.step cfg now w ht hb

theorem coreAfterWrites_iff : CoreAfterWrites s inode path key cfg c o ws ↔
    BufferAfter (AfterWrites c o key) s inode path key cfg ws :=
  ⟨fun h => ⟨h.named, h.keyed, h.config, h.buffer⟩, fun h => ⟨h.named, h.keyed, h.config, h.buffer⟩⟩

theorem AfterWrites.core_step (hp : s.inodeMgr.getPath inode = some path)
    (hk : s.obsPath path = key) (hc : s.writeBuffer.config = cfg) (w : WriteCall)
    (h : AfterWrites c o key ws
      (s.writeBuffer.bufferFor w.now.instant inode key (s.knownSize w.now.instant inode))
      s.obsClient)
    (ht : (written ws).length + w.data.length < cfg.multipartThreshold)
    (hb : (written ws).length + w.data.length < cfg.bufferSize) :
    CoreAfterWrites (s.writeStep inode w) inode path key cfg c o (ws ++ [w.placement]) :=
  coreAfterWrites_iff.mpr (.first AfterWrites.keptByWrites hp hk hc w h ht hb)

theorem CoreAfterWrites.run (h : CoreAfterWrites s inode path key cfg c o ws)
    (calls : List WriteCall)
    (ht : (written ws).length + (written (calls.map (·.placement))).length <
      cfg.multipartThreshold)
    (hb : (written ws).length + (written (calls.map (·.placement))).length < cfg.bufferSize) :
    CoreAfterWrites (run (ObsFsCore.writeStep inode) s calls) inode path key cfg c o
      (ws ++ calls.map (·.placement)) :=
  coreAfterWrites_iff.mpr ((coreAfterWrites_iff.mp h).run AfterWrites.keptByWrites calls ht hb)

theorem release_after_writes (h : UnbufferedFile s inode path c) (calls : List WriteCall) (fh : ℕ)
    (ht : (written (calls.map (·.placement))).length < s.writeBuffer.config.multipartThreshold)
    (hb : (written (calls.map (·.placement))).length < s.writeBuffer.config.bufferSize) :
    AList.lookup (s.obsPath path)
        ((run (ObsFsCore.writeStep inode) s calls).doRelease inode fh).2.obsClient.objects =
      some (storedObject c (s.sizeAtFirst inode calls) (calls.map (·.placement))) := by
  cases calls with
  | nil =>
    rw [run_nil, (s.doRelease_buffer inode fh).2.1, WriteBuffer.release_none h.unbuffered]
    simpa [storedObject, KeepsBuffering, Contiguous] using h.object
  | cons w calls =>
    simp only [List.map_cons, written_cons, List.length_append] at ht hb
    have hfresh : AfterWrites c (s.knownSize w.now.instant inode) (s.obsPath path) []
        (s.writeBuffer.bufferFor w.now.instant inode (s.obsPath path)
          (s.knownSize w.now.instant inode)) s.obsClient := by
      rw [WriteBuffer.bufferFor_none h.unbuffered]
      exact AfterWrites.fresh h.reliable h.object ..
    have hfirst := AfterWrites.core_step h.named rfl rfl w hfresh
      (by simp only [WriteCall.placement] at ht; simp; omega)
      (by simp only [WriteCall.placement] at hb; simp; omega)
    have hrun := hfirst.run calls (by simpa using ht) (by simpa using hb)
    obtain ⟨buf, hbuf, haw⟩ := hrun.buffer
    rw [run_cons, (ObsFsCore.doRelease_buffer _ inode fh).2.1, WriteBuffer.release_some hbuf]
    exact haw.flush_object _ (by simp)

end

/-! ### The stored object against the positional meaning -/

theorem overlays_of_written_nil (c : Bytes) {ws : List (ℕ × Bytes)} (h : written ws = []) :
    overlays 0 c ws = c := by
  induction ws generalizing c with
  | nil => rfl
  | cons w ws ih =>
    obtain ⟨hw, hws⟩ := List.append_eq_nil_iff.mp (by simpa using h)
    rw [overlays_cons, hw, overlay_nil, ih c hws]

theorem eq_overlays_iff (c d : Bytes) (ws : List (ℕ × Bytes)) :
    d = overlays 0 c ws ↔
      d.length = extent c.length ws ∧ ∀ x < d.length, d[x]? = due 0 c ws x := by
  constructor
  · intro h
    refine ⟨by rw [h, length_overlays], fun x _ => ?_⟩
    rw [← getElem?_overlays, ← h]
  · intro hc
    obtain ⟨hlen, hx⟩ := hc
    apply List.ext_getElem?
    intro x
    by_cases hlt : x < d.length
    · rw [hx x hlt, getElem?_overlays]
    · rw [List.getElem?_eq_none (by omega),
        List.getElem?_eq_none (by rw [length_overlays]; omega)]

/-- The data of the last write is the whole content exactly when it starts the file and
reaches the end of what was there before. -/
theorem last_eq_overlays_iff (c : Bytes) (ws : List (ℕ × Bytes)) (w : ℕ × Bytes) :
    w.2 = overlays 0 c (ws ++ [w]) ↔
      (w.2 = [] ∨ w.1 = 0) ∧ extent c.length ws ≤ w.2.length := by
  rw [overlays_append, overlays_cons, overlays_nil, ← length_overlays 0 c ws, eq_comm]
  by_cases hw : w.2 = []
  · simp [hw]
  · rw [overlay_eq_data_iff 0 _ _ _ hw]
    simp [hw]

theorem storedObject_eq_overlays_iff (c : Bytes) (o : ℕ) (ws : List (ℕ × Bytes)) :
    storedObject c o ws = overlays 0 c ws ↔ WritesFit c o ws := by
  unfold storedObject WritesFit
  by_cases hc : Contiguous 0 ws
  · have hk : KeepsBuffering o ws := .inr hc
    rw [if_pos hk, if_pos hc, overlays_contiguous 0 c hc]
    by_cases hw : written ws = []
    · simp [hw]
    · rw [if_neg hw, eq_comm, overlay_eq_data_iff 0 c 0 _ hw]
      simp [hw]
  · rw [if_neg hc]
    by_cases ho : o = 0
    · have hk : KeepsBuffering o ws := .inl ho
      rw [if_pos hk, if_pos ho]
      by_cases hw : written ws = []
      · simp [hw, overlays_of_written_nil]
      · rw [if_neg hw, eq_overlays_iff]
        simp [hw]
    · rw [if_neg (by simp [KeepsBuffering, ho, hc]), if_neg ho]
      induction ws using List.reverseRecOn with
      | nil => exact absurd trivial hc
      | append_singleton ws w _ =>
        rw [List.getLast?_concat, Option.map_some, Option.getD_some, last_eq_overlays_iff,
          List.dropLast_concat]
        simp only [Option.mem_def, Option.some.injEq, forall_eq']

/-! ### When the writes of a file reach its object -/

/-- After any writes below both thresholds and the release, the object is the old content
with the writes laid over it in order exactly when `WritesFit` holds. -/
theorem release_object_eq_overlays_iff {s : ObsFsCore} {inode : ℕ} {path : Str} {c : Bytes}
    (h : UnbufferedFile s inode path c) (calls : List WriteCall) (fh : ℕ)
    (ht : (written (calls.map (·.placement))).length < s.writeBuffer.config.multipartThreshold)
    (hb : (written (calls.map (·.placement))).length < s.writeBuffer.config.bufferSize) :
    AList.lookup (s.obsPath path)
        ((run (ObsFsCore.writeStep inode) s calls).doRelease inode fh).2.obsClient.objects =
      some (overlays 0 c (calls.map (·.placement))) ↔
    WritesFit c (s.sizeAtFirst inode calls) (calls.map (·.placement)) := by
  rw [release_after_writes h calls fh ht hb, Option.some.injEq, storedObject_eq_overlays_iff]

def threeByteFile : ObsFsCore := .oneFile .basic Config.basic_valid [1, 2, 3]

theorem threeByteFile_unbuffered : UnbufferedFile threeByteFile 2 ['f'] [1, 2, 3] :=
  ⟨by decide, by decide, by decide, fun _ => rfl⟩

/-- Overwriting the three bytes in two writes reaches the object. -/
theorem overwrite_whole_file_reaches_object :
    AList.lookup ['f']
        ((run (ObsFsCore.writeStep 2) threeByteFile
          [⟨⟨1, 1⟩, 1, 0, [7]⟩, ⟨⟨2, 2⟩, 1, 1, [8, 9]⟩]).doRelease 2 1).2.obsClient.objects =
      some (overlays 0 [1, 2, 3] [(0, [7]), (1, [8, 9])]) :=
  (release_object_eq_overlays_iff threeByteFile_unbuffered
    [⟨⟨1, 1⟩, 1, 0, [7]⟩, ⟨⟨2, 2⟩, 1, 1, [8, 9]⟩] 1 (by decide) (by decide)).mpr
    (by unfold WritesFit; decide)

/-- Writing the first byte of the file alone cuts the rest of the object off. -/
theorem write_first_byte_truncates_object :
    UnbufferedFile threeByteFile 2 ['f'] [1, 2, 3] ∧
      1 < threeByteFile.writeBuffer.config.multipartThreshold ∧
      1 < threeByteFile.writeBuffer.config.bufferSize ∧
      AList.lookup ['f']
        ((run (ObsFsCore.writeStep 2) threeByteFile [⟨⟨1, 1⟩, 1, 0, [9]⟩]).doRelease
          2 1).2.obsClient.objects = some [9] ∧
      overlays 0 [1, 2, 3] [(0, [9])] = ([9, 2, 3] : Bytes) :=
  ⟨threeByteFile_unbuffered, by decide, by decide, by decide, by decide⟩

end ObsFuse
