import ObsFuse.Consistency.WriteOverlay
import Mathlib.Data.List.TakeDrop

/-! # Truncations and the writes after them

A truncation empties the file's buffer and keeps what it knows of the file apart from the
size: the size at the last flush, and where the next write continues the last one. Its effect
on the object is judged at the release, after any writes. -/

namespace ObsFuse
open Lib

/-- The calls that change a file, or where its bytes are. -/
inductive FileEdit where
  | write (w : WriteCall)
  | flush
  | truncate (now : Now) (size : ℕ)
  | release (fh : ℕ)

/-- What the file holds after a call, by position. -/
def FileEdit.content (l : Bytes) : FileEdit → Bytes
  | .write w => overlay 0 l w.offset w.data
  | .truncate _ size => l.takeD size 0
  | .flush | .release _ => l

def ObsFsCore.edit (inode : ℕ) (s : ObsFsCore) : FileEdit → ObsFsCore
  | .write w => s.writeStep inode w
  | .flush => (s.doFlush inode).2
  | .truncate now size => (s.doTruncate now inode size).2
  | .release fh => (s.doRelease inode fh).2

/-- Each write starts where the one before it ends, as far as a 64-bit offset can tell. -/
def Continues : ℕ → List (ℕ × Bytes) → Prop
  | _, [] => True
  | next, w :: ws => w.1 = next ∧ Continues (u64 (w.1 + w.2.length)) ws

instance decidableContinues : (next : ℕ) → (ws : List (ℕ × Bytes)) → Decidable (Continues next ws)
  | _, [] => isTrue trivial
  | next, w :: ws =>
    have := decidableContinues (u64 (w.1 + w.2.length)) ws
    inferInstanceAs (Decidable (w.1 = next ∧ Continues (u64 (w.1 + w.2.length)) ws))

/-- None of the writes bypasses the buffer: the file was empty when it was last flushed, or
each of them continues the last one. -/
def StaysBuffered (buf : FileWriteBuffer) (ws : List (ℕ × Bytes)) : Prop :=
  ws = [] ∨ buf.originalSize = 0 ∨ buf.sequentialWrite = true ∧ Continues buf.nextOffset ws

instance (buf : FileWriteBuffer) (ws : List (ℕ × Bytes)) : Decidable (StaysBuffered buf ws) :=
  inferInstanceAs (Decidable (_ ∨ _ ∨ _ ∧ _))

/-- When the object is the content `l` cut or extended to `size` with the writes `ws` laid
over it: `stored` is the object and `buf` the buffer before the truncation. -/
def TruncationFits (stored : Option Bytes) (buf : FileWriteBuffer) (l : Bytes) (size : ℕ)
    (ws : List (ℕ × Bytes)) : Prop :=
  if StaysBuffered buf ws then
    if written ws = [] then size = 0 ∨ stored = some (l.takeD size 0)
    else WritesFit (l.takeD size 0) 0 ws
  else ∀ w ∈ ws.getLast?, (w.2 = [] ∨ w.1 = 0) ∧ extent size ws.dropLast ≤ w.2.length

/-! ### Offsets that continue -/

/-- Where the writes end, starting from `next`. -/
def endOf (next : ℕ) (ws : List (ℕ × Bytes)) : ℕ :=
  (ws.getLast?.map fun w => u64 (w.1 + w.2.length)).getD next

@[simp] theorem endOf_nil (next : ℕ) : endOf next [] = next := rfl

@[simp] theorem endOf_snoc (next : ℕ) (ws : List (ℕ × Bytes)) (w : ℕ × Bytes) :
    endOf next (ws ++ [w]) = u64 (w.1 + w.2.length) := by
  rw [endOf, List.getLast?_concat]
  rfl

theorem endOf_cons (next : ℕ) (w : ℕ × Bytes) (ws : List (ℕ × Bytes)) :
    endOf next (w :: ws) = endOf (u64 (w.1 + w.2.length)) ws := by
  cases ws using List.reverseRecOn with
  | nil => rfl
  | append_singleton ws v => rw [← List.cons_append, endOf_snoc, endOf_snoc]

theorem continues_snoc {next : ℕ} {ws : List (ℕ × Bytes)} {w : ℕ × Bytes} :
    Continues next (ws ++ [w]) ↔ Continues next ws ∧ w.1 = endOf next ws := by
  induction ws generalizing next with
  | nil => simp [Continues]
  | cons v ws ih =>
    rw [List.cons_append, Continues, Continues, ih, endOf_cons, and_assoc]

theorem staysBuffered_snoc {buf : FileWriteBuffer} {ws : List (ℕ × Bytes)} {w : ℕ × Bytes} :
    StaysBuffered buf (ws ++ [w]) ↔ buf.originalSize = 0 ∨
      (buf.sequentialWrite = true ∧ Continues buf.nextOffset ws) ∧
        w.1 = endOf buf.nextOffset ws := by
  rw [StaysBuffered, continues_snoc]
  simp [and_assoc]

theorem StaysBuffered.of_snoc {buf : FileWriteBuffer} {ws : List (ℕ × Bytes)} {w : ℕ × Bytes}
    (h : StaysBuffered buf (ws ++ [w])) : StaysBuffered buf ws := by
  rcases staysBuffered_snoc.mp h with horig | ⟨hcont, -⟩
  · exact .inr (.inl horig)
  · exact .inr (.inr hcont)

theorem extent_dropLast_le (n : ℕ) (ws : List (ℕ × Bytes)) :
    extent n ws.dropLast ≤ extent n ws := by
  induction ws using List.reverseRecOn with
  | nil => exact le_rfl
  | append_singleton ws w _ =>
    rw [List.dropLast_concat, extent_append]
    exact le_extent ..

/-! ### The buffer in the course of the writes -/

/-- What the buffer `buf` knows after the writes `ws`, starting from a truncation of `old`. -/
structure Tracks (old : FileWriteBuffer) (size : ℕ) (key : Str) (ws : List (ℕ × Bytes))
    (buf : FileWriteBuffer) : Prop where
  path : buf.path = key
  dirty : buf.data ≠ [] → buf.dirty = true
  multipart : buf.multipart = none
  sequential : buf.sequentialWrite = true ↔
    old.sequentialWrite = true ∧ Continues old.nextOffset ws
  next : buf.nextOffset = endOf old.nextOffset ws
  short : buf.data.length ≤ (written ws).length
  grown : written ws ≠ [] → 0 < buf.size ∨ 2 ^ 64 ≤ extent size ws

namespace Tracks
variable {old buf : FileWriteBuffer} {size : ℕ} {key : Str} {ws : List (ℕ × Bytes)}

theorem truncated (hpath : old.path = key) : Tracks old size key [] (old.truncated size) where
  path := hpath
  dirty h := absurd rfl h
  multipart := rfl
  sequential := by simp [FileWriteBuffer.truncated, Continues]
  next := rfl
  short := le_rfl
  grown h := absurd rfl h

theorem placed_sequential (h : Tracks old size key ws buf) (w : ℕ × Bytes) :
    (buf.placed w.1 w.2.length).sequentialWrite = true ↔
      old.sequentialWrite = true ∧ Continues old.nextOffset (ws ++ [w]) := by
  rw [FileWriteBuffer.placed_sequentialWrite, h.sequential, h.next, continues_snoc, and_assoc]

theorem grown_snoc (h : Tracks old size key ws buf) (w : ℕ × Bytes)
    (hne : written (ws ++ [w]) ≠ []) :
    0 < max buf.size (u64 (w.1 + w.2.length)) ∨ 2 ^ 64 ≤ extent size (ws ++ [w]) := by
  have hext : extent size (ws ++ [w]) =
      if w.2 = [] then extent size ws else max (extent size ws) (w.1 + w.2.length) := by
    rw [extent_append]
    rfl
  rw [hext]
  by_cases hw : w.2 = []
  · have hws : written ws ≠ [] := by simpa [hw] using hne
    rw [if_pos hw]
    exact (h.grown hws).imp (fun hpos => lt_of_lt_of_le hpos (le_max_left ..)) id
  · have hlen : 0 < w.2.length := List.length_pos_iff.mpr hw
    rw [if_neg hw]
    -- the end of the write is positive, or past what a 64-bit size can hold
    by_cases hfit : w.1 + w.2.length < 2 ^ 64
    · left
      rw [u64_eq hfit]
      omega
    · right
      omega

theorem snoc (h : Tracks old size key ws buf) (w : ℕ × Bytes) {buf' : FileWriteBuffer}
    (hpath : buf'.path = buf.path) (hmultipart : buf'.multipart = none)
    (hseq : buf'.sequentialWrite = (buf.placed w.1 w.2.length).sequentialWrite)
    (hnext : buf'.nextOffset = u64 (w.1 + w.2.length))
    (hsize : buf'.size = max buf.size (u64 (w.1 + w.2.length)))
    (hdirty : buf'.data ≠ [] → buf'.dirty = true)
    (hshort : buf'.data.length ≤ (written ws).length + w.2.length) :
    Tracks old size key (ws ++ [w]) buf' where
  path := hpath.trans h.path
  dirty := hdirty
  multipart := hmultipart
  sequential := by rw [hseq, h.placed_sequential]
  next := by rw [hnext, endOf_snoc]
  short := by simpa using hshort
  grown := by
    rw [hsize]
    exact h.grown_snoc w

theorem appended (h : Tracks old size key ws buf) (now : Instant) (w : ℕ × Bytes) :
    Tracks old size key (ws ++ [w]) (buf.appended now w.1 w.2) := by
  refine h.snoc w rfl h.multipart rfl rfl rfl (fun _ => rfl) ?_
  rw [FileWriteBuffer.appended_data, List.length_append]
  exact Nat.add_le_add_right h.short _

theorem bypassed (h : Tracks old size key ws buf) (w : ℕ × Bytes) (hdata : buf.data = []) :
    Tracks old size key (ws ++ [w])
      ((buf.placed w.1 w.2.length).grown (u64 (w.1 + w.2.length))) := by
  refine h.snoc w rfl h.multipart rfl rfl rfl (fun hne => absurd hdata hne) ?_
  show buf.data.length ≤ _
  rw [hdata]
  exact Nat.zero_le _

theorem flushed (h : Tracks old size key ws buf) (w : ℕ × Bytes) :
    Tracks old size key (ws ++ [w])
      ((buf.placed w.1 w.2.length).flushed.grown (u64 (w.1 + w.2.length))) :=
  h.snoc w rfl rfl rfl rfl rfl (fun hne => absurd rfl hne) (Nat.zero_le _)

end Tracks

/-- The file's buffer and the client after the writes `ws`, where the truncation of `old` has
left `c` under the key. -/
structure AfterTruncate (old : FileWriteBuffer) (size : ℕ) (c : Bytes) (key : Str)
    (ws : List (ℕ × Bytes)) (buf : FileWriteBuffer) (cl : ObsClient) : Prop where
  tracks : Tracks old size key ws buf
  reliable : cl.Reliable
  held : StaysBuffered old ws → buf.originalSize = old.originalSize ∧ buf.data = written ws ∧
    AList.lookup key cl.objects = some c
  -- a buffer that holds more than 64 bits can count may take the file for an empty one
  sent : ¬StaysBuffered old ws →
    (0 < buf.originalSize ∧ buf.data = [] ∧
      AList.lookup key cl.objects = ws.getLast?.map (·.2)) ∨
    (2 ^ 64 ≤ extent size ws.dropLast ∧
      ∃ d, AList.lookup key cl.objects = some d ∧ d.length ≤ (written ws).length)

namespace AfterTruncate
variable {old buf : FileWriteBuffer} {size : ℕ} {c : Bytes} {key : Str} {ws : List (ℕ × Bytes)}
  {cl : ObsClient}

/-- A write goes past the buffer unless it continues the last one or the file was empty. -/
theorem goesDirect_iff (h : AfterTruncate old size c key ws buf cl) (w : ℕ × Bytes) :
    buf.goesDirect w.1 = true ↔
      ¬(old.sequentialWrite = true ∧ Continues old.nextOffset (ws ++ [w])) ∧
        0 < buf.originalSize := by
  rw [FileWriteBuffer.goesDirect_iff, ← FileWriteBuffer.placed_sequentialWrite buf w.1 w.2.length,
    h.tracks.placed_sequential]

theorem step_direct (h : AfterTruncate old size c key ws buf cl) (cfg : WriteBufferConfig)
    (now : Instant) (w : ℕ × Bytes) (hd : buf.goesDirect w.1 = true) :
    AfterTruncate old size c key (ws ++ [w]) (cfg.writeLocked buf cl now key w.1 w.2).2.1
      (cfg.writeLocked buf cl now key w.1 w.2).2.2 := by
  obtain ⟨hncont, hpos⟩ := (h.goesDirect_iff w).mp hd
  have hk : ¬StaysBuffered old (ws ++ [w]) := by
    intro hk
    rcases staysBuffered_snoc.mp hk with hzero | hcont
    · rw [(h.held hk.of_snoc).1] at hpos
      omega
    · rw [continues_snoc, ← and_assoc] at hncont
      exact hncont hcont
  have hlast : (ws ++ [w]).getLast?.map (·.2) = some w.2 := by
    rw [List.getLast?_concat]
    rfl
  rw [cfg.writeLocked_direct_reliable now key w.1 w.2 hd h.tracks.dirty h.tracks.multipart
    h.reliable]
  split
  · next hnil =>
    refine ⟨h.tracks.bypassed w hnil, h.reliable.stored _ _, fun hn => absurd hn hk, ?_⟩
    intro _
    refine .inl ⟨hpos, hnil, ?_⟩
    rw [ObsClient.stored_lookup, if_pos rfl, hlast]
  · next hne =>
    refine ⟨h.tracks.flushed w, (h.reliable.stored _ _).stored _ _, fun hn => absurd hn hk, ?_⟩
    intro _
    have hobj : AList.lookup key ((cl.stored buf.path buf.data).stored key w.2).objects =
        some w.2 := by
      rw [ObsClient.stored_lookup, if_pos rfl]
    have hws : written ws ≠ [] := by
      have hshort := h.tracks.short
      have hlen := List.length_pos_iff.mpr hne
      exact List.length_pos_iff.mp (by omega)
    -- the flush has made the size of the buffer the size of the file
    rcases h.tracks.grown hws with hsize | hover
    · exact .inl ⟨hsize, rfl, hobj.trans hlast.symm⟩
    · right
      rw [List.dropLast_concat]
      exact ⟨hover, w.2, hobj, by simp⟩

theorem step_append (h : AfterTruncate old size c key ws buf cl) (cfg : WriteBufferConfig)
    (now : Instant) (w : ℕ × Bytes) (hd : buf.goesDirect w.1 = false)
    (ht : (written ws).length + w.2.length < cfg.multipartThreshold)
    (hb : (written ws).length + w.2.length < cfg.bufferSize) :
    AfterTruncate old size c key (ws ++ [w]) (cfg.writeLocked buf cl now key w.1 w.2).2.1
      (cfg.writeLocked buf cl now key w.1 w.2).2.2 := by
  have hshort := h.tracks.short
  rw [cfg.writeLocked_append now key w.1 w.2 hd h.tracks.multipart (by omega) (by omega)]
  refine ⟨h.tracks.appended now w, h.reliable, ?_, ?_⟩
  · intro hk
    obtain ⟨horig, hdata, hobj⟩ := h.held hk.of_snoc
    refine ⟨horig, ?_, hobj⟩
    rw [FileWriteBuffer.appended_data, hdata, written_append, written_cons, written_nil,
      List.append_nil]
  · intro hk
    rw [staysBuffered_snoc, not_or, and_assoc, ← continues_snoc] at hk
    have horig : ¬0 < buf.originalSize := by
      intro hpos
      have hdirect := (h.goesDirect_iff w).mpr ⟨hk.2, hpos⟩
      rw [hd] at hdirect
      cases hdirect
    right
    by_cases hprev : StaysBuffered old ws
    · rw [(h.held hprev).1] at horig
      exact absurd (Nat.pos_of_ne_zero hk.1) horig
    · rcases h.sent hprev with ⟨hpos, -, -⟩ | ⟨hover, d, hobj, hdlen⟩
      · exact absurd hpos horig
      · rw [List.dropLast_concat]
        refine ⟨hover.trans (extent_dropLast_le size ws), d, hobj, hdlen.trans ?_⟩
        rw [written_append, List.length_append]
        exact Nat.le_add_right ..

theorem step (h : AfterTruncate old size c key ws buf cl) (cfg : WriteBufferConfig) (now : Instant)
    (w : ℕ × Bytes) (ht : (written ws).length + w.2.length < cfg.multipartThreshold)
    (hb : (written ws).length + w.2.length < cfg.bufferSize) :
    AfterTruncate old size c key (ws ++ [w]) (cfg.writeLocked buf cl now key w.1 w.2).2.1
      (cfg.writeLocked buf cl now key w.1 w.2).2.2 := by
  cases hd : buf.goesDirect w.1 with
  | true => exact h.step_direct cfg now w hd
  | false => exact h.step_append cfg now w hd ht hb

/-- The object that the release leaves is what is due exactly when `TruncationFits` holds. -/
theorem flush_object_iff (h : AfterTruncate old size c key ws buf cl) (cfg : WriteBufferConfig)
    (hb : (written ws).length < cfg.bufferSize) {stored : Option Bytes} {l : Bytes}
    (hc : c = l.takeD size 0 ↔ size = 0 ∨ stored = some (l.takeD size 0)) :
    AList.lookup key (cfg.flushBuffer buf cl).2.2.objects =
        some (overlays 0 (l.takeD size 0) ws) ↔ TruncationFits stored old l size ws := by
  have hsize := List.takeD_length size l 0
  rw [cfg.flushBuffer_reliable h.tracks.dirty h.tracks.multipart h.reliable, TruncationFits]
  by_cases hk : StaysBuffered old ws
  · obtain ⟨-, hdata, hobj⟩ := h.held hk
    rw [if_pos hk, hdata]
    by_cases hw : written ws = []
    · rw [if_pos hw, if_pos hw, hobj, overlays_of_written_nil _ hw, Option.some.injEq, hc]
    · rw [if_neg hw, if_neg hw, ObsClient.stored_lookup, if_pos h.tracks.path.symm,
        Option.some.injEq, ← storedObject_eq_overlays_iff]
      have hkeep : KeepsBuffering 0 ws := .inl rfl
      rw [storedObject, if_pos hkeep, if_neg hw]
  · rw [if_neg hk]
    rcases h.sent hk with ⟨-, hdata, hobj⟩ | ⟨hover, d, hobj, hdlen⟩
    · rw [if_pos hdata, hobj]
      induction ws using List.reverseRecOn with
      | nil => exact absurd (.inl rfl) hk
      | append_singleton ws w _ =>
        rw [List.getLast?_concat, Option.map_some, Option.some.injEq, last_eq_overlays_iff, hsize,
          List.dropLast_concat]
        simp only [Option.mem_def, Option.some.injEq, forall_eq']
    · -- too much is due for the object: it holds no more than what has been written
      have hlt := cfg.bufferSize_lt
      have hfinal : ∃ e, AList.lookup key (if buf.data = [] then (.ok (), buf, cl) else
          (.ok (), buf.flushed, cl.stored buf.path buf.data) :
            WriteResult Unit × FileWriteBuffer × ObsClient).2.2.objects = some e ∧
          e.length ≤ (written ws).length := by
        split
        · exact ⟨d, hobj, hdlen⟩
        · refine ⟨buf.data, ?_, h.tracks.short⟩
          rw [ObsClient.stored_lookup, if_pos h.tracks.path.symm]
      obtain ⟨e, he, helen⟩ := hfinal
      rw [he, Option.some.injEq]
      refine iff_of_false ?_ ?_
      · intro heq
        have hext := extent_dropLast_le size ws
        have hlen : e.length = extent size ws := by rw [heq, length_overlays, hsize]
        omega
      · intro hfits
        induction ws using List.reverseRecOn with
        | nil => exact hk (.inl rfl)
        | append_singleton ws w _ =>
          have hlast := (hfits w (by rw [List.getLast?_concat]; rfl)).2
          simp only [written_append, written_cons, written_nil, List.append_nil,
            List.length_append] at hb
          omega

end AfterTruncate

/-! ### The calls on the core -/

/-- A file under its key, on storage that does not fail. -/
structure KnownFile (s : ObsFsCore) (inode : ℕ) (path key : Str) : Prop where
  named : s.inodeMgr.getPath inode = some path
  keyed : s.obsPath path = key
  reliable : s.obsClient.Reliable
  object : key ∈ s.obsClient.objects
  buffer : ∀ buf ∈ AList.lookup inode s.writeBuffer.buffers,
    buf.path = key ∧ (buf.data ≠ [] → buf.dirty = true)

namespace KnownFile
variable {s s' : ObsFsCore} {inode : ℕ} {path key : Str}

theorem bufferFor (h : KnownFile s inode path key) (now : Instant) (size : ℕ) :
    (s.writeBuffer.bufferFor now inode key size).path = key ∧
      ((s.writeBuffer.bufferFor now inode key size).data ≠ [] →
        (s.writeBuffer.bufferFor now inode key size).dirty = true) := by
  cases hbuf : AList.lookup inode s.writeBuffer.buffers with
  | some buf =>
    rw [WriteBuffer.bufferFor_some hbuf]
    exact h.buffer buf hbuf
  | none =>
    rw [WriteBuffer.bufferFor_none hbuf]
    exact ⟨rfl, fun hne => absurd rfl hne⟩

theorem of_grows (h : KnownFile s inode path key)
    (hnamed : s'.inodeMgr.getPath inode = some path) (hkeyed : s'.obsPath path = key)
    (hgrows : s.obsClient.Grows s'.obsClient)
    (hbuffer : ∀ buf ∈ AList.lookup inode s'.writeBuffer.buffers,
      buf.path = key ∧ (buf.data ≠ [] → buf.dirty = true)) : KnownFile s' inode path key :=
  ⟨hnamed, hkeyed, hgrows.reliable h.reliable, hgrows.objects key h.object, hbuffer⟩

theorem write (h : KnownFile s inode path key) (w : WriteCall) :
    KnownFile (s.writeStep inode w) inode path key := by
  obtain ⟨hnamed, hkeyed, hwb, hcl⟩ := ObsFsCore.writeStep_buffer h.named h.keyed w
  obtain ⟨hpath, hdirty⟩ := h.bufferFor w.now.instant (s.knownSize w.now.instant inode)
  refine h.of_grows hnamed hkeyed ?_ ?_
  · rw [hcl]
    exact s.writeBuffer.config.writeLocked_grows ..
  · rw [hwb]
    intro buf hbuf
    rw [Option.mem_def, AList.lookup_insert] at hbuf
    obtain ⟨hkeep, hclean⟩ := @WriteBufferConfig.writeLocked_keeps s.writeBuffer.config _
      s.obsClient hdirty w.now.instant key w.offset w.data
    rw [← Option.some.inj hbuf]
    exact ⟨hkeep.trans hpath, fun hne => (hclean hne).1⟩

theorem flush (h : KnownFile s inode path key) : KnownFile (s.doFlush inode).2 inode path key := by
  unfold ObsFsCore.doFlush ObsFsCore.onWriteBuffer WriteBuffer.flush
  cases hbuf : AList.lookup inode s.writeBuffer.buffers with
  | none => exact ⟨h.named, h.keyed, h.reliable, h.object, h.buffer⟩
  | some buf =>
    obtain ⟨hpath, hdirty⟩ := h.buffer buf hbuf
    obtain ⟨hdata, hkeep, -⟩ :=
      @WriteBufferConfig.flushBuffer_keeps s.writeBuffer.config buf s.obsClient hdirty
    refine h.of_grows h.named h.keyed (s.writeBuffer.config.flushBuffer_grows buf s.obsClient) ?_
    intro buf' hbuf'
    dsimp only at hbuf'
    rw [Option.mem_def, AList.lookup_insert] at hbuf'
    rw [← Option.some.inj hbuf']
    exact ⟨hkeep.trans hpath, fun hne => absurd hdata hne⟩

theorem release (h : KnownFile s inode path key) (fh : ℕ) :
    KnownFile (s.doRelease inode fh).2 inode path key := by
  have hframe : (s.doRelease inode fh).2.inodeMgr = s.inodeMgr ∧
      (s.doRelease inode fh).2.config = s.config := by
    unfold ObsFsCore.doRelease
    split
    · exact ⟨rfl, rfl⟩
    · exact ⟨rfl, rfl⟩
    · exact ⟨rfl, rfl⟩
  obtain ⟨hwb, hcl, -⟩ := s.doRelease_buffer inode fh
  have hnamed : (s.doRelease inode fh).2.inodeMgr.getPath inode = some path := by
    rw [hframe.1]
    exact h.named
  have hkeyed : (s.doRelease inode fh).2.obsPath path = key := by
    rw [ObsFsCore.obsPath_congr hframe.2]
    exact h.keyed
  cases hbuf : AList.lookup inode s.writeBuffer.buffers with
  | none =>
    rw [WriteBuffer.release_none hbuf] at hwb hcl
    refine h.of_grows hnamed hkeyed ?_ ?_
    · rw [hcl]
      exact .refl _
    · rw [hwb]
      exact h.buffer
  | some buf =>
    rw [WriteBuffer.release_some hbuf] at hwb hcl
    refine h.of_grows hnamed hkeyed ?_ ?_
    · rw [hcl]
      exact s.writeBuffer.config.flushBuffer_grows ..
    · rw [hwb]
      intro buf' hbuf'
      rw [Option.mem_def, AList.lookup_erase] at hbuf'
      cases hbuf'

theorem doTruncate (h : KnownFile s inode path key) (now : Now) (size : ℕ) :
    (s.doTruncate now inode size).1 = .ok () ∧
      (s.doTruncate now inode size).2.inodeMgr = s.inodeMgr ∧
      (s.doTruncate now inode size).2.config = s.config ∧
      (s.doTruncate now inode size).2.writeBuffer = { s.writeBuffer with
        buffers := s.writeBuffer.buffers.insert inode
          ((s.writeBuffer.bufferFor now.instant inode key size).truncated size) } ∧
      (s.doTruncate now inode size).2.obsClient =
        if size = 0 then s.obsClient.stored key [] else s.obsClient := by
  unfold ObsFsCore.doTruncate
  rw [h.named]
  dsimp only
  rw [h.keyed, WriteBuffer.truncate_reliable h.reliable]
  exact ⟨rfl, rfl, rfl, rfl, rfl⟩

theorem truncate (h : KnownFile s inode path key) (now : Now) (size : ℕ) :
    KnownFile (s.doTruncate now inode size).2 inode path key := by
  obtain ⟨-, hmgr, hconfig, hwb, hcl⟩ := h.doTruncate now size
  refine h.of_grows ?_ ?_ ?_ ?_
  · rw [hmgr]
    exact h.named
  · rw [ObsFsCore.obsPath_congr hconfig]
    exact h.keyed
  · rw [hcl]
    split
    · exact s.obsClient.stored_grows ..
    · exact .refl _
  · rw [hwb]
    intro buf hbuf
    rw [Option.mem_def, AList.lookup_insert] at hbuf
    rw [← Option.some.inj hbuf]
    exact ⟨(h.bufferFor now.instant size).1, fun hne => absurd rfl hne⟩

theorem edit (h : KnownFile s inode path key) (e : FileEdit) :
    KnownFile (s.edit inode e) inode path key ∧
      (s.edit inode e).writeBuffer.config = s.writeBuffer.config := by
  cases e with
  | write w =>
    refine ⟨h.write w, ?_⟩
    obtain ⟨-, -, hwb, -⟩ := ObsFsCore.writeStep_buffer h.named h.keyed w
    rw [ObsFsCore.edit, hwb]
  | flush =>
    refine ⟨h.flush, ?_⟩
    show (s.writeBuffer.flush s.obsClient inode).2.1.config = s.writeBuffer.config
    unfold WriteBuffer.flush
    split
    · rfl
    · rfl
  | truncate now size =>
    refine ⟨h.truncate now size, ?_⟩
    obtain ⟨-, -, -, hwb, -⟩ := h.doTruncate now size
    rw [ObsFsCore.edit, hwb]
  | release fh =>
    refine ⟨h.release fh, ?_⟩
    refine (congrArg WriteBuffer.config (s.doRelease_buffer inode fh).1).trans ?_
    cases hbuf : AList.lookup inode s.writeBuffer.buffers with
    | none => rw [WriteBuffer.release_none hbuf]
    | some buf => rw [WriteBuffer.release_some hbuf]

theorem edits (h : KnownFile s inode path key) (edits : List FileEdit) :
    KnownFile (run (ObsFsCore.edit inode) s edits) inode path key ∧
      (run (ObsFsCore.edit inode) s edits).writeBuffer.config = s.writeBuffer.config := by
  induction edits generalizing s with
  | nil => exact ⟨h, rfl⟩
  | cons e edits ih =>
    obtain ⟨hedit, hconfig⟩ := h.edit e
    obtain ⟨hrest, hrestConfig⟩ := ih hedit
    exact ⟨hrest, hrestConfig.trans hconfig⟩

end KnownFile

namespace ObsFsCore
variable {s : ObsFsCore} {inode : ℕ} {path key : Str}

/-- The truncation of a known file, the writes and the release, with any content in mind. -/
theorem truncated_object_iff (h : KnownFile s inode path key) (l : Bytes) (now : Now) (size : ℕ)
    (calls : List WriteCall) (fh : ℕ)
    (ht : (written (calls.map (·.placement))).length < s.writeBuffer.config.multipartThreshold)
    (hb : (written (calls.map (·.placement))).length < s.writeBuffer.config.bufferSize) :
    let t := run (writeStep inode) (s.doTruncate now inode size).2 calls
    AList.lookup key (t.doRelease inode fh).2.obsClient.objects =
        some (overlays 0 (l.takeD size 0) (calls.map (·.placement))) ↔
      TruncationFits (AList.lookup key s.obsClient.objects)
        (s.writeBuffer.bufferFor now.instant inode key size) l size
        (calls.map (·.placement)) := by
  intro t
  obtain ⟨c, hc⟩ := Option.isSome_iff_exists.mp (AList.lookup_isSome.mpr h.object)
  have htrunc := h.truncate now size
  obtain ⟨-, -, -, hwb, hcl⟩ := h.doTruncate now size
  have hstart : BufferAfter (AfterTruncate (s.writeBuffer.bufferFor now.instant inode key size) size
      (if size = 0 then [] else c) key) (s.doTruncate now inode size).2 inode path key
        s.writeBuffer.config [] := by
    refine ⟨htrunc.named, htrunc.keyed, by rw [hwb], ?_⟩
    refine ⟨_, by rw [hwb]; exact AList.lookup_insert _, ?_⟩
    refine ⟨.truncated (h.bufferFor now.instant size).1, htrunc.reliable, ?_, ?_⟩
    · intro _
      refine ⟨rfl, rfl, ?_⟩
      rw [hcl]
      by_cases hsize : size = 0
      · rw [if_pos hsize, if_pos hsize, ObsClient.stored_lookup, if_pos rfl]
      · rw [if_neg hsize, if_neg hsize, hc]
    · intro hn
      exact absurd (.inl rfl) hn
  have hkept : KeptByWrites s.writeBuffer.config key
      (AfterTruncate (s.writeBuffer.bufferFor now.instant inode key size) size
        (if size = 0 then [] else c) key) :=
    fun _ _ _ now w h ht hb => h.step _ now w ht hb
  have hrun := hstart.run hkept calls (by simpa using ht) (by simpa using hb)
  obtain ⟨buf, hbuf, hafter⟩ := hrun.buffer
  rw [(t.doRelease_buffer inode fh).2.1, WriteBuffer.release_some hbuf]
  rw [List.nil_append] at hafter
  refine hafter.flush_object_iff t.writeBuffer.config (by rw [hrun.config]; exact hb) ?_
  rw [hc, Option.some.injEq]
  by_cases hsize : size = 0
  · simp [hsize]
  · simp [hsize]

end ObsFsCore

/-- After any calls for a file, a truncation, further writes below both thresholds and the
release, the object is the content so far cut or extended to the new size, with the writes laid
over it in order, exactly when `TruncationFits` holds. -/
theorem truncate_object_eq_iff {s : ObsFsCore} {inode : ℕ} {path : Str} {c : Bytes}
    (h : UnbufferedFile s inode path c) (edits : List FileEdit) (now : Now) (size : ℕ)
    (calls : List WriteCall) (fh : ℕ)
    (ht : (written (calls.map (·.placement))).length < s.writeBuffer.config.multipartThreshold)
    (hb : (written (calls.map (·.placement))).length < s.writeBuffer.config.bufferSize) :
    let before := run (ObsFsCore.edit inode) s edits
    let l := run FileEdit.content c edits
    let t := run (ObsFsCore.writeStep inode) (before.doTruncate now inode size).2 calls
    AList.lookup (s.obsPath path) (t.doRelease inode fh).2.obsClient.objects =
        some (overlays 0 (l.takeD size 0) (calls.map (·.placement))) ↔
      TruncationFits (AList.lookup (s.obsPath path) before.obsClient.objects)
        (before.writeBuffer.bufferFor now.instant inode (s.obsPath path) size) l size
        (calls.map (·.placement)) := by
  intro before l t
  have hstart : KnownFile s inode path (s.obsPath path) := by
    refine ⟨h.named, rfl, h.reliable, ?_, ?_⟩
    · rw [← AList.lookup_isSome, h.object]
      rfl
    · intro buf hbuf
      rw [h.unbuffered] at hbuf
      cases hbuf
  obtain ⟨hbefore, hconfig⟩ := hstart.edits edits
  exact ObsFsCore.truncated_object_iff hbefore l now size calls fh (by rw [hconfig]; exact ht)
    (by rw [hconfig]; exact hb)

/-- Two bytes are written over the file of three, which is then emptied and gets one byte. -/
theorem emptied_file_gets_writes :
    let before := run (ObsFsCore.edit 2) threeByteFile [.write ⟨⟨1, 1⟩, 1, 0, [7, 8]⟩]
    let l := run FileEdit.content [1, 2, 3] [.write ⟨⟨1, 1⟩, 1, 0, [7, 8]⟩]
    let t := run (ObsFsCore.writeStep 2) (before.doTruncate ⟨2, 2⟩ 2 0).2 [⟨⟨3, 3⟩, 1, 0, [9]⟩]
    AList.lookup ['f'] (t.doRelease 2 1).2.obsClient.objects =
      some (overlays 0 (l.takeD 0 0) [(0, [9])]) :=
  (truncate_object_eq_iff threeByteFile_unbuffered [.write ⟨⟨1, 1⟩, 1, 0, [7, 8]⟩] ⟨2, 2⟩ 0
    [⟨⟨3, 3⟩, 1, 0, [9]⟩] 1 (by decide) (by decide)).mpr
    (by unfold TruncationFits WritesFit; decide)

/-- The file of three bytes is cut to two: its object keeps all three. -/
theorem truncation_leaves_object :
    let t := (threeByteFile.doTruncate ⟨1, 1⟩ 2 2).2
    UnbufferedFile threeByteFile 2 ['f'] [1, 2, 3] ∧
      (threeByteFile.doTruncate ⟨1, 1⟩ 2 2).1 = .ok () ∧ (t.doRelease 2 1).1 = .ok () ∧
      AList.lookup ['f'] (t.doRelease 2 1).2.obsClient.objects = some [1, 2, 3] ∧
      overlays 0 (([1, 2, 3] : Bytes).takeD 2 0) [] = [1, 2] :=
  ⟨threeByteFile_unbuffered, by decide, by decide, by decide, by decide⟩

end ObsFuse
