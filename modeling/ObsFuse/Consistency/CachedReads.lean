import ObsFuse.Cache.BlockSources
import ObsFuse.Fs.ReadPath
import ObsFuse.Fs.Mount
import ObsFuse.Lib.Runs

/-! # Reads of an unchanging object through the data cache

A file is read again and again while its object stays the same and nothing is prefetched.
A read that misses stores its bytes under the block of its offset, wherever in the block
they start; a later read of the block is answered as if they started at the block's
beginning. The run is followed by the ranges of the reads that filled the blocks. Any of the
file operations of the disk tier may fail: a block then comes to light again as an earlier read
filled it, or cut short. -/

namespace ObsFuse
open Lib

structure ReadCall where
  now : Now
  fh : ℕ
  offset : ℕ
  size : ℕ

structure TrackedReads where
  core : ObsFsCore
  fills : ℕ → List (ℕ × ℕ)

namespace TrackedReads

/-- One read of the file. A read that the cache does not answer fills its block. -/
def step (inode : ℕ) (s : TrackedReads) (call : ReadCall) : TrackedReads where
  core := (s.core.doRead call.now inode call.fh call.offset call.size).2
  fills :=
    if (s.core.cachedAnswer inode call.offset call.size).isSome then s.fills
    else fun b =>
      if b = call.offset / s.core.dataCache.blockSize then (call.offset, call.size) :: s.fills b
      else s.fills b

def ReadsContent (inode : ℕ) (content : Bytes) (s : TrackedReads) (call : ReadCall) : Prop :=
  (s.core.doRead call.now inode call.fh call.offset call.size).1 =
    .ok ((content.drop call.offset).take call.size)

/-- A read that the cache answers asks for bytes that the cached block reaches, and finds at its
own distance from where a filling read of these bytes started what belongs to its own offset. -/
def FillServes (inode : ℕ) (content : Bytes) (s : TrackedReads) (call : ReadCall) : Prop :=
  let blockSize := s.core.dataCache.blockSize
  let start := call.offset % blockSize
  (s.core.cachedAnswer inode call.offset call.size).isSome →
    ∃ block ∈ s.core.dataCache.visible (s.core.dataCache.key inode call.offset),
      ∃ fill ∈ s.fills (call.offset / blockSize),
        block <+: (content.drop fill.1).take fill.2 ∧
          ∀ j < call.size, call.offset + j < content.length →
            start + j < block.length ∧
              content[fill.1 + (start + j)]? = content[call.offset + j]?

instance (inode : ℕ) (content : Bytes) (s : TrackedReads) (call : ReadCall) :
    Decidable (s.FillServes inode content call) :=
  inferInstanceAs (Decidable (_ → _))

end TrackedReads

/-- A file whose object is `content`, on storage that does not fail and clips the ranges it
reads, with the read-ahead off and nothing of it prefetched or cached in either tier. -/
structure ColdFile (s : ObsFsCore) (inode : ℕ) (path : Str) (content : Bytes) : Prop where
  named : s.inodeMgr.getPath inode = some path
  object : AList.lookup (s.obsPath path) s.obsClient.objects = some content
  reliable : s.obsClient.Reliable
  clips : s.obsClient.backend.Clips
  readahead : s.readahead.config.enable = false
  prefetched : ∀ o, AList.lookup ⟨inode, o⟩ s.readahead.prefetchBuffer = none
  wellFormed : s.dataCache.WellFormed
  cold : ∀ o data, ¬s.dataCache.Keeps (s.dataCache.key inode o) data

/-- The file in the course of the reads: what is cached of it begins what a filling read of its
block brought. -/
structure ReadFile (inode : ℕ) (path : Str) (content : Bytes) (s : TrackedReads) : Prop where
  named : s.core.inodeMgr.getPath inode = some path
  object : AList.lookup (s.core.obsPath path) s.core.obsClient.objects = some content
  reliable : s.core.obsClient.Reliable
  clips : s.core.obsClient.backend.Clips
  readahead : s.core.readahead.config.enable = false
  prefetched : ∀ o, AList.lookup ⟨inode, o⟩ s.core.readahead.prefetchBuffer = none
  wellFormed : s.core.dataCache.WellFormed
  inBlock : ∀ b, ∀ fill ∈ s.fills b, fill.1 / s.core.dataCache.blockSize = b
  filled : ∀ o data, s.core.dataCache.Keeps (s.core.dataCache.key inode o) data →
    ∃ fill ∈ s.fills (o / s.core.dataCache.blockSize),
      data <+: (content.drop fill.1).take fill.2

theorem ColdFile.start {s : ObsFsCore} {inode : ℕ} {path : Str} {content : Bytes}
    (h : ColdFile s inode path content) : ReadFile inode path content ⟨s, fun _ => []⟩ where
  named := h.named
  object := h.object
  reliable := h.reliable
  clips := h.clips
  readahead := h.readahead
  prefetched := h.prefetched
  wellFormed := h.wellFormed
  inBlock _ _ hfill := nomatch hfill
  filled o data hd := absurd hd (h.cold o data)

namespace ReadFile
variable {inode : ℕ} {path : Str} {content : Bytes} {s : TrackedReads}

theorem getPrefetched (h : ReadFile inode path content s) (now : Instant) (o : ℕ) :
    s.core.readahead.getPrefetched now inode o = (none, s.core.readahead) := by
  unfold ReadaheadManager.getPrefetched
  rw [h.prefetched]

theorem doRead (h : ReadFile inode path content s) (call : ReadCall) :
    s.core.doRead call.now inode call.fh call.offset call.size =
      match s.core.cachedAnswer inode call.offset call.size with
      | some data => (.ok data, s.core.askedCache call.now inode call.fh call.offset call.size)
      | none =>
        (s.core.askedCache call.now inode call.fh call.offset call.size).readRemote call.now inode
          (s.core.obsPath path) call.offset call.size := by
  have hread := s.core.doRead_eq h.named call.now call.fh call.offset call.size
  rw [h.getPrefetched] at hread
  exact hread

end ReadFile

theorem getElem?_clipped (content : Bytes) (m n j : ℕ) :
    ((content.drop m).take n)[j]? = if j < n then content[m + j]? else none := by
  rw [List.getElem?_take, List.getElem?_drop]

theorem getElem?_served (data : Bytes) (start size j : ℕ) :
    ((data.take (min (start + size) data.length)).drop start)[j]? =
      if j < size then data[start + j]? else none := by
  rw [List.getElem?_drop, List.getElem?_take]
  by_cases hlen : start + j < data.length
  · by_cases hj : j < size
    · rw [if_pos (by omega), if_pos hj]
    · rw [if_neg (by omega), if_neg hj]
  · rw [List.getElem?_eq_none (by omega), ite_self, ite_self]

theorem getElem?_of_isPrefix {content block : Bytes} {m n i : ℕ}
    (hcut : block <+: (content.drop m).take n) (hi : i < block.length) :
    block[i]? = content[m + i]? := by
  obtain ⟨rest, hrest⟩ := hcut
  have hlen := congrArg List.length hrest
  rw [List.length_append, List.length_take] at hlen
  have hin : i < n := by omega
  have hel := congrArg (·[i]?) hrest
  simp only [List.getElem?_append_left hi, getElem?_clipped, if_pos hin] at hel
  exact hel

theorem length_of_isPrefix {content block : Bytes} {m n : ℕ}
    (hcut : block <+: (content.drop m).take n) : block.length ≤ content.length - m := by
  have hlen := hcut.length_le
  rw [List.length_take, List.length_drop] at hlen
  omega

theorem served_eq_iff {content block : Bytes} {m n start offset size : ℕ}
    (hcut : block <+: (content.drop m).take n) (hle : offset ≤ m + start) :
    (block.take (min (start + size) block.length)).drop start =
        (content.drop offset).take size ↔
      ∀ j < size, offset + j < content.length →
        start + j < block.length ∧ content[m + (start + j)]? = content[offset + j]? := by
  constructor
  · intro h j hj hlt
    have hel := congrArg (·[j]?) h
    simp only [getElem?_served, getElem?_clipped, if_pos hj] at hel
    have hin : start + j < block.length := by
      rw [List.getElem?_eq_getElem hlt] at hel
      exact (List.getElem?_eq_some_iff.mp hel).1
    rw [← getElem?_of_isPrefix hcut hin]
    exact ⟨hin, hel⟩
  · intro h
    apply List.ext_getElem?
    intro j
    rw [getElem?_served, getElem?_clipped]
    by_cases hj : j < size
    · rw [if_pos hj, if_pos hj]
      by_cases hlt : offset + j < content.length
      · obtain ⟨hin, hel⟩ := h j hj hlt
        rw [getElem?_of_isPrefix hcut hin, hel]
      · have hlen := length_of_isPrefix hcut
        rw [List.getElem?_eq_none (by omega), List.getElem?_eq_none (by omega)]
    · rw [if_neg hj, if_neg hj]

theorem start_le_of_same_block {blockSize o o' : ℕ} (h : o' / blockSize = o / blockSize) :
    o ≤ o' + o % blockSize := by
  have ho := Nat.div_add_mod o blockSize
  have ho' := Nat.div_add_mod o' blockSize
  rw [h] at ho'
  omega

namespace ReadFile
variable {inode : ℕ} {path : Str} {content : Bytes} {s : TrackedReads}

theorem readRemote (h : ReadFile inode path content s) (call : ReadCall) :
    (s.core.askedCache call.now inode call.fh call.offset call.size).readRemote call.now inode
        (s.core.obsPath path) call.offset call.size =
      (.ok ((content.drop call.offset).take call.size),
        { s.core.askedCache call.now inode call.fh call.offset call.size with
          obsClient := s.core.obsClient.sent (.read (s.core.obsPath path) call.offset call.size)
          dataCache := (s.core.dataCache.get inode call.offset).2.put inode call.offset
            ((content.drop call.offset).take call.size) }) := by
  have hasked : (s.core.askedCache call.now inode call.fh call.offset call.size).readahead =
      s.core.readahead := by
    show (s.core.readahead.getPrefetched call.now.instant inode call.offset).2 = s.core.readahead
    rw [h.getPrefetched]
  have hrecord :
      (s.core.askedCache call.now inode call.fh call.offset call.size).readahead.recordRead
        call.now.instant inode call.offset call.size = (none, s.core.readahead) := by
    rw [hasked, ReadaheadManager.recordRead, h.readahead]
    rfl
  have hfault : (s.core.askedCache call.now inode call.fh call.offset call.size).obsClient.fault =
      none := h.reliable.fault
  have hobj : AList.lookup (s.core.obsPath path)
      (s.core.askedCache call.now inode call.fh call.offset call.size).obsClient.objects =
        some content := h.object
  have hclips : (s.core.askedCache call.now inode call.fh call.offset
      call.size).obsClient.backend.refusesRead content call.offset call.size = none :=
    h.clips content call.offset call.size
  rw [ObsFsCore.readRemote_eq _ hfault hobj hclips, hrecord, ← hasked]
  simp [ObsFsCore.askedCache, ObsFsCore.askedPrefetched]

theorem readsContent_iff (h : ReadFile inode path content s) (call : ReadCall) :
    s.ReadsContent inode content call ↔ s.FillServes inode content call := by
  unfold TrackedReads.ReadsContent TrackedReads.FillServes
  rw [h.doRead]
  cases hc : s.core.cachedAnswer inode call.offset call.size with
  | none =>
    dsimp only
    rw [h.readRemote]
    simp
  | some data =>
    unfold ObsFsCore.cachedAnswer at hc
    cases hv : s.core.dataCache.visible (s.core.dataCache.key inode call.offset) with
    | none => simp [hv] at hc
    | some block =>
      rw [hv] at hc
      dsimp only at hc
      split at hc
      · obtain rfl := Option.some.inj hc
        dsimp only
        rw [Outcome.ok.injEq]
        constructor
        · intro hread _
          obtain ⟨fill, hfill, hcut⟩ := h.filled call.offset block (DataCache.keeps_of_visible hv)
          have hle := start_le_of_same_block (h.inBlock _ fill hfill)
          exact ⟨block, rfl, fill, hfill, hcut, (served_eq_iff hcut hle).mp hread⟩
        · intro hserves
          obtain ⟨_, ⟨⟩, fill, hfill, hcut, hreach⟩ := hserves rfl
          have hle := start_le_of_same_block (h.inBlock _ fill hfill)
          exact (served_eq_iff hcut hle).mpr hreach
      · cases hc

theorem next (h : ReadFile inode path content s) {core : ObsFsCore} {fills : ℕ → List (ℕ × ℕ)}
    (hinodes : core.inodeMgr = s.core.inodeMgr) (hconfig : core.config = s.core.config)
    (hobjects : core.obsClient.objects = s.core.obsClient.objects)
    (hfaults : core.obsClient.faults = s.core.obsClient.faults)
    (hbackend : core.obsClient.backend = s.core.obsClient.backend)
    (hreadahead : core.readahead = s.core.readahead)
    (hsize : core.dataCache.blockSize = s.core.dataCache.blockSize)
    (hwell : core.dataCache.WellFormed)
    (hin : ∀ b, ∀ fill ∈ fills b, fill.1 / s.core.dataCache.blockSize = b)
    (hfilled : ∀ o data, core.dataCache.Keeps (s.core.dataCache.key inode o) data →
      ∃ fill ∈ fills (o / s.core.dataCache.blockSize),
        data <+: (content.drop fill.1).take fill.2) :
    ReadFile inode path content ⟨core, fills⟩ where
  named := by rw [hinodes, h.named]
  object := by rw [ObsFsCore.obsPath_congr hconfig, hobjects, h.object]
  reliable n := by rw [hfaults, h.reliable n]
  clips := by rw [hbackend]; exact h.clips
  readahead := by rw [hreadahead, h.readahead]
  prefetched := by rw [hreadahead]; exact h.prefetched
  wellFormed := hwell
  inBlock := by rw [hsize]; exact hin
  filled o data hd := by
    dsimp only at hd ⊢
    rw [DataCache.key_congr hsize] at hd
    rw [hsize]
    exact hfilled o data hd

/-- What is left of a cached block still begins what a filling read brought. -/
theorem filled_left (h : ReadFile inode path content s) {o : ℕ} {data rest : Bytes}
    (hd : s.core.dataCache.Keeps (s.core.dataCache.key inode o) data)
    (hleft : s.core.dataCache.Leaves data rest) :
    ∃ fill ∈ s.fills (o / s.core.dataCache.blockSize),
      rest <+: (content.drop fill.1).take fill.2 := by
  obtain ⟨fill, hfill, hcut⟩ := h.filled o data hd
  exact ⟨fill, hfill, hleft.isPrefix.trans hcut⟩

theorem step (h : ReadFile inode path content s) (call : ReadCall) :
    ReadFile inode path content (s.step inode call) := by
  have hget := DataCache.get_keepsNoMore h.wellFormed inode call.offset
  have hwell : (s.core.dataCache.get inode call.offset).2.WellFormed :=
    DataCache.get_kept DiskCache.wellFormed_kept h.wellFormed inode call.offset
  have hasked : (s.core.readahead.getPrefetched call.now.instant inode call.offset).2 =
      s.core.readahead := by rw [h.getPrefetched]
  cases hc : s.core.cachedAnswer inode call.offset call.size with
  | some data =>
    have hstep : s.step inode call =
        ⟨s.core.askedCache call.now inode call.fh call.offset call.size, s.fills⟩ := by
      rw [TrackedReads.step, h.doRead, hc]
      rfl
    rw [hstep]
    refine h.next ?_ ?_ ?_ ?_ ?_ hasked hget.blockSize hwell h.inBlock ?_
    iterate 5 rfl
    intro o rest hrest
    obtain ⟨d, hd, hleft⟩ := hget.keeps _ rest hrest
    exact h.filled_left hd hleft
  | none =>
    have hstep : s.step inode call =
        ⟨{ s.core.askedCache call.now inode call.fh call.offset call.size with
            obsClient := s.core.obsClient.sent (.read (s.core.obsPath path) call.offset call.size)
            dataCache := (s.core.dataCache.get inode call.offset).2.put inode call.offset
              ((content.drop call.offset).take call.size) },
          fun b => if b = call.offset / s.core.dataCache.blockSize then
            (call.offset, call.size) :: s.fills b else s.fills b⟩ := by
      rw [TrackedReads.step, h.doRead, hc]
      dsimp only
      rw [h.readRemote]
      rfl
    have hkey : (s.core.dataCache.get inode call.offset).2.key inode call.offset =
        s.core.dataCache.key inode call.offset := DataCache.key_congr hget.blockSize _ _
    rw [hstep]
    refine h.next ?_ ?_ ?_ ?_ ?_ hasked ((DataCache.putMemory_blockSize _ _ _).trans hget.blockSize)
      (DataCache.putMemory_kept DiskCache.wellFormed_kept hwell _ _) ?_ ?_
    iterate 5 rfl
    · intro b fill hfill
      split at hfill
      · next hb =>
        rcases List.mem_cons.mp hfill with rfl | hold
        · exact hb.symm
        · exact h.inBlock b fill hold
      · exact h.inBlock b fill hfill
    · intro o rest hrest
      rcases DataCache.putMemory_keeps hwell hrest with ⟨hsame, rfl⟩ | ⟨d, hd, hleft⟩
      · -- the block that the read fills
        rw [hkey] at hsame
        have hoff := congrArg BlockKey.offset hsame
        have hb : o / s.core.dataCache.blockSize = call.offset / s.core.dataCache.blockSize :=
          Nat.eq_of_mul_eq_mul_right s.core.dataCache.blockSize_pos hoff
        rw [if_pos hb]
        exact ⟨_, List.mem_cons_self, List.prefix_refl _⟩
      · obtain ⟨d', hd', hleft'⟩ := hget.keeps_left hd hleft
        obtain ⟨fill, hfill, hcut⟩ := h.filled_left hd' hleft'
        refine ⟨fill, ?_, hcut⟩
        split
        · exact List.mem_cons_of_mem _ hfill
        · exact hfill

end ReadFile

/-- Every read of a run returns the requested range of the content exactly when every read
that the cache answers is served by a read that filled its block. -/
theorem every_read_clips_iff {s : ObsFsCore} {inode : ℕ} {path : Str} {content : Bytes}
    (h : ColdFile s inode path content) (calls : List ReadCall) :
    Along (TrackedReads.step inode) (TrackedReads.ReadsContent inode content)
        ⟨s, fun _ => []⟩ calls ↔
      Along (TrackedReads.step inode) (TrackedReads.FillServes inode content)
        ⟨s, fun _ => []⟩ calls :=
  along_iff_of_invariant (fun _ call h => h.step call)
    (fun _ call h => h.readsContent_iff call) h.start

/-- Blocks of four bytes and no read-ahead. -/
def Config.smallBlocks : Config :=
  { Config.basic with
    cache := { Config.basic.cache with blockSize := 4 }
    performance := { Config.basic.performance with readAhead := false } }

/-- `Backend.plain`, which clips the ranges that it reads. -/
def Backend.clipping : Backend := { Backend.plain with refusesRead := fun _ _ _ => none }

def sixByteFile : ObsFsCore :=
  let s := ObsFsCore.oneFile .smallBlocks rfl [10, 11, 12, 13, 14, 15]
  { s with obsClient := { s.obsClient with backend := .clipping } }

theorem sixByteFile_cold : ColdFile sixByteFile 2 ['f'] [10, 11, 12, 13, 14, 15] where
  named := by decide
  object := by decide
  reliable _ := rfl
  clips _ _ _ := rfl
  readahead := by decide
  prefetched _ := rfl
  wellFormed := by
    intro d hd
    cases hd
  cold o data hd := by
    rcases hd with ⟨block, hblock, -⟩ | hdisk
    · cases hblock
    · cases hdisk

/-- Reads that fill whole blocks serve the reads inside them. -/
theorem aligned_reads_clip :
    Along (TrackedReads.step 2) (TrackedReads.ReadsContent 2 [10, 11, 12, 13, 14, 15])
      ⟨sixByteFile, fun _ => []⟩
      [⟨⟨1, 1⟩, 1, 0, 4⟩, ⟨⟨2, 2⟩, 1, 1, 2⟩, ⟨⟨3, 3⟩, 1, 4, 4⟩, ⟨⟨4, 4⟩, 1, 5, 9⟩] :=
  (every_read_clips_iff sixByteFile_cold
    [⟨⟨1, 1⟩, 1, 0, 4⟩, ⟨⟨2, 2⟩, 1, 1, 2⟩, ⟨⟨3, 3⟩, 1, 4, 4⟩, ⟨⟨4, 4⟩, 1, 5, 9⟩]).mpr (by decide)

/-- A read at offset 1 fills the block, and the next read at offset 0 gets its bytes. -/
theorem unaligned_read_misplaces_bytes :
    ColdFile sixByteFile 2 ['f'] [10, 11, 12, 13, 14, 15] ∧
      (((sixByteFile.doRead ⟨1, 1⟩ 2 1 1 2).2).doRead ⟨2, 2⟩ 2 1 0 2).1 = .ok [11, 12] ∧
      ¬Along (TrackedReads.step 2) (TrackedReads.ReadsContent 2 [10, 11, 12, 13, 14, 15])
        ⟨sixByteFile, fun _ => []⟩ [⟨⟨1, 1⟩, 1, 1, 2⟩, ⟨⟨2, 2⟩, 1, 0, 2⟩] := by
  refine ⟨sixByteFile_cold, by decide, ?_⟩
  intro h
  have hread : (((sixByteFile.doRead ⟨1, 1⟩ 2 1 1 2).2).doRead ⟨2, 2⟩ 2 1 0 2).1 = .ok [10, 11] :=
    h.2.1
  exact absurd hread (by decide)

end ObsFuse
