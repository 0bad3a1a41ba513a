import ObsFuse.Consistency.MemoryAccounting

/-! # What `invalidate_range` removes

Every operation stores blocks under keys that are aligned to the block size. Where the keys of
the memory tier are aligned, the loop of `invalidate_range` goes through the blocks that share a
byte with the range, and through no others. -/

namespace ObsFuse
open Lib

namespace DataCache
variable {c : DataCache}

def BlocksAligned (c : DataCache) : Prop := ∀ key ∈ c.memoryCache, c.blockSize ∣ key.offset

theorem mem_iff_lookup {t : Table BlockKey CachedBlock} {key : BlockKey} :
    key ∈ t ↔ ∃ block, AList.lookup key t = some block := by
  rw [← AList.lookup_isSome, Option.isSome_iff_exists]

theorem BlocksAligned.of_sub {c' : DataCache} (h : c.BlocksAligned)
    (hbs : c'.blockSize = c.blockSize)
    (hsub : ∀ key block, AList.lookup key c'.memoryCache = some block →
      AList.lookup key c.memoryCache = some block) : c'.BlocksAligned := by
  intro key hkey
  obtain ⟨block, hblock⟩ := mem_iff_lookup.mp hkey
  rw [hbs]
  exact h key (mem_iff_lookup.mpr ⟨block, hsub key block hblock⟩)

theorem BlocksAligned.insert (h : c.BlocksAligned) (inode offset : ℕ) (block : CachedBlock) :
    ∀ key ∈ c.memoryCache.insert (c.key inode offset) block, c.blockSize ∣ key.offset := by
  intro key hkey
  rcases (AList.mem_insert _).mp hkey with rfl | hin
  · exact Nat.dvd_mul_left ..
  · exact h key hin

theorem BlocksAligned.putMemory (h : c.BlocksAligned) (inode offset : ℕ) (data : Bytes) :
    (c.putMemory (c.key inode offset) data).BlocksAligned := by
  have hbs : (c.roomFor data.length).blockSize = c.blockSize :=
    evictLoop_blockSize c data.length (c.memoryCache.entries.length + 1)
  have hroom : (c.roomFor data.length).BlocksAligned := by
    refine h.of_sub hbs ?_
    intro key block hblock
    rcases c.roomFor_lookup data.length key with hnone | hsame
    · rw [hnone] at hblock
      cases hblock
    · rwa [hsame] at hblock
  have hkey : c.key inode offset = (c.roomFor data.length).key inode offset := by
    unfold DataCache.key
    rw [hbs]
  rw [putMemory_eq, hkey]
  exact hroom.insert inode offset _

theorem BlocksAligned.get (h : c.BlocksAligned) (inode offset : ℕ) :
    (c.get inode offset).2.BlocksAligned := by
  cases hm : AList.lookup (c.key inode offset) c.memoryCache with
  | some block =>
    rw [get_memory hm]
    exact h.insert inode offset (block.touch c.now)
  | none =>
    cases hd : c.diskCache with
    | none =>
      rw [get_miss hm hd]
      exact h
    | some disk =>
      rw [get_disk hm hd]
      have htried : ({ c.ticked with
          diskCache := some (disk.get c.now (c.key inode offset)).2 } : DataCache).BlocksAligned :=
        h
      cases disk.answer (c.key inode offset) with
      | none => exact htried
      | some data => exact htried.putMemory inode offset data

theorem step_blocksAligned (c : DataCache) (op : CacheOp) (h : c.BlocksAligned) :
    (c.step op).BlocksAligned := by
  cases op with
  | put inode offset data => exact h.putMemory inode offset data
  | get inode offset => exact h.get inode offset
  | invalidate inode => exact h.of_sub rfl (c.invalidate_shrinks inode).memory
  | invalidateRange inode offset len =>
    exact h.of_sub rfl (c.invalidateRange_shrinks inode offset len).memory
  | clear =>
    intro key hkey
    cases hkey

theorem run_blocksAligned (blockSize : ℕ) (pos : 0 < blockSize) (memoryLimit : ℕ)
    (disk : Option DiskCache) (clock : ℕ → Instant) (order : IterOrder MemItem)
    (ops : List CacheOp) :
    (run DataCache.step (.new blockSize pos memoryLimit disk clock order) ops).BlocksAligned := by
  refine run_kept step_blocksAligned ?_ ops
  intro key hkey
  cases hkey

/-- For an aligned key, the loop's bounds are those of the blocks that meet the range. -/
theorem removes_iff_intersects {inode offset len : ℕ} {key : BlockKey}
    (hw : offset + len + c.blockSize - 1 < 2 ^ 64) (hlen : 0 < len)
    (hkey : c.blockSize ∣ key.offset) :
    c.Removes inode offset len key ↔ key.Intersects c.blockSize inode offset len := by
  obtain ⟨b, hb⟩ := hkey
  rw [Nat.mul_comm] at hb
  have hmeet := @block_meets_iff c.blockSize b offset len c.blockSize_pos
  unfold Removes BlockKey.Intersects endBlock
  rw [u64_eq hw, hb, Nat.mul_mod_left, Nat.mul_div_cancel _ c.blockSize_pos, hmeet]
  exact ⟨fun ⟨hi, _, hrange⟩ => ⟨hi, hlen, hrange⟩, fun ⟨hi, _, hrange⟩ => ⟨hi, rfl, hrange⟩⟩

end DataCache

/-- Of a memory tier with aligned keys, `invalidate_range` removes the blocks that share a byte
with a range that is not empty, and it changes no other block. -/
theorem invalidate_range_exact (c : DataCache) (halign : c.BlocksAligned) (inode offset len : ℕ)
    (hlen : 0 < len) (hw : offset + len + c.blockSize < 2 ^ 64) (key : BlockKey) :
    AList.lookup key (c.invalidateRange inode offset len).memoryCache =
      if key.Intersects c.blockSize inode offset len then none
      else AList.lookup key c.memoryCache := by
  rw [c.invalidateRange_lookup]
  by_cases hin : key ∈ c.memoryCache
  · have hiff := @DataCache.removes_iff_intersects c inode offset len key (by omega) hlen
      (halign key hin)
    simp only [hiff]
  · have hnone : AList.lookup key c.memoryCache = none := AList.lookup_eq_none.mpr hin
    rw [hnone, ite_self, ite_self]

/-- Four blocks of four bytes; the range from the last byte of the first block into the third. -/
theorem fourth_block_stays :
    let c := run DataCache.step (.new 4 (by decide) 100 none id .storage)
      [.put 1 0 [0, 0, 0, 0], .put 1 4 [1, 1, 1, 1], .put 1 8 [2, 2, 2, 2], .put 1 12 [3, 3, 3, 3]]
    AList.lookup ⟨1, 12⟩ (c.invalidateRange 1 3 6).memoryCache = AList.lookup ⟨1, 12⟩ c.memoryCache
      ∧ AList.lookup ⟨1, 8⟩ (c.invalidateRange 1 3 6).memoryCache = none :=
  have haligned := DataCache.run_blocksAligned 4 (by decide) 100 none id .storage
    [.put 1 0 [0, 0, 0, 0], .put 1 4 [1, 1, 1, 1], .put 1 8 [2, 2, 2, 2], .put 1 12 [3, 3, 3, 3]]
  ⟨invalidate_range_exact _ haligned 1 3 6 (by decide) (by decide) ⟨1, 12⟩,
    invalidate_range_exact _ haligned 1 3 6 (by decide) (by decide) ⟨1, 8⟩⟩

end ObsFuse
