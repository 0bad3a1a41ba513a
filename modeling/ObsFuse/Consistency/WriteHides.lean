import ObsFuse.Fs.WritePath
import ObsFuse.Fs.ReadPath
import ObsFuse.Fs.Mount

/-! # Which cached copies survive a write

After a successful write, bytes of the written range that were cached before can still be
answered from two places: a prefetched entry that overlaps the range, and the disk tier. -/

namespace ObsFuse
open Lib

/-- The `m` positions from `a` on and the `n` positions from `b` on have one in common. -/
def Overlaps (a m b n : ℕ) : Prop := ∃ x, (a ≤ x ∧ x < a + m) ∧ (b ≤ x ∧ x < b + n)

theorem overlaps_iff (a m b n : ℕ) : Overlaps a m b n ↔ 0 < m ∧ 0 < n ∧ a < b + n ∧ b < a + m := by
  constructor
  · intro h
    obtain ⟨x, ha, hb⟩ := h
    omega
  · intro h
    exact ⟨max a b, by omega, by omega⟩

instance (a m b n : ℕ) : Decidable (Overlaps a m b n) :=
  decidable_of_iff _ (overlaps_iff a m b n).symm

namespace DataCache

/-- The cache with other outcomes of the file operations in its directory. -/
def withFaults (c : DataCache) (faults : ℕ → Option FileFault) : DataCache :=
  { c with diskCache := c.diskCache.map fun d => { d with faults := faults } }

/-- Each cached block has at most the bytes of its own block. -/
def OwnBlocks (c : DataCache) : Prop :=
  (∀ e ∈ c.memoryCache.entries, e.2.data.length ≤ c.blockSize) ∧
    ∀ disk, c.diskCache = some disk → ∀ e ∈ disk.files.entries, e.2.length ≤ c.blockSize

/-- However the file operations end, all that the cache can answer for a block is what the memory
tier has of it, else what the disk tier holds. -/
theorem visible_withFaults (c : DataCache) (key : BlockKey) (P : Bytes → Prop) :
    (∀ faults d, (c.withFaults faults).visible key = some d → P d) ↔
      (∀ block, AList.lookup key c.memoryCache = some block → P block.data) ∧
        (AList.lookup key c.memoryCache = none → ∀ d, c.onDisk key = some d → P d) := by
  constructor
  · intro h
    refine ⟨fun block hblock => ?_, fun hnone d hd => ?_⟩
    · have hmem : AList.lookup key (c.withFaults fun _ => none).memoryCache = some block := hblock
      exact h _ _ (visible_of_memory hmem)
    · have hmem : AList.lookup key (c.withFaults fun _ => none).memoryCache = none := hnone
      obtain ⟨disk, hdisk, hcontent⟩ := Option.bind_eq_some_iff.mp hd
      apply h (fun _ => none) d
      rw [visible_of_not_memory hmem, fromDisk, withFaults, hdisk]
      exact hcontent
  · intro h faults d hd
    obtain ⟨hmemory, hdisk⟩ := h
    cases hm : AList.lookup key c.memoryCache with
    | some block =>
      have hmem : AList.lookup key (c.withFaults faults).memoryCache = some block := hm
      rw [visible_of_memory hmem, Option.some.injEq] at hd
      rw [← hd]
      exact hmemory block hm
    | none =>
      have hmem : AList.lookup key (c.withFaults faults).memoryCache = none := hm
      rw [visible_of_not_memory hmem] at hd
      apply hdisk hm d
      have hkept := onDisk_of_fromDisk hd
      unfold onDisk withFaults at hkept
      cases hc : c.diskCache with
      | none =>
        rw [hc] at hkept
        cases hkept
      | some disk =>
        rw [hc] at hkept
        rw [onDisk, hc]
        exact hkept

end DataCache

theorem PrefetchedData.isExpired_mono {entry : PrefetchedData} {now t : Instant} {ttl : ℕ}
    (hle : now ≤ t) (h : entry.isExpired t ttl = false) : entry.isExpired now ttl = false := by
  unfold isExpired at h ⊢
  rw [decide_eq_false_iff_not] at h ⊢
  intro hlt
  exact h (lt_of_lt_of_le hlt (Nat.sub_le_sub_right hle _))

namespace ObsFsCore
variable (s : ObsFsCore)

/-- From `now` on no byte of the range is answered from the prefetched data, nor from the
data cache for a block that the range meets, whichever file operations fail. -/
def Hides (now : Instant) (inode offset len : ℕ) : Prop :=
  (∀ t o d, now ≤ t → (s.readahead.getPrefetched t inode o).1 = some d →
      ¬Overlaps o d.length offset len) ∧
    ∀ o, (s.dataCache.key inode o).Intersects s.dataCache.blockSize inode offset len →
      ∀ faults d, ((s.dataCache.withFaults faults).get inode o).1 = some d →
        ¬Overlaps (s.dataCache.key inode o).offset d.length offset len

/-- No live prefetched entry has bytes of the range; of a block that the range meets,
neither does the disk copy, where it is or comes to light, nor a memory copy that
`invalidate_range` passes over. -/
def OnlyMemoryCopies (now : Instant) (inode offset len : ℕ) : Prop :=
  (∀ o entry, AList.lookup ⟨inode, o⟩ s.readahead.prefetchBuffer = some entry →
      entry.isExpired now s.readahead.config.prefetchTtl = false →
      ¬Overlaps o entry.data.length offset len) ∧
    ∀ o, (s.dataCache.key inode o).Intersects s.dataCache.blockSize inode offset len →
      (s.dataCache.Removes inode offset len (s.dataCache.key inode o) ∨
          AList.lookup (s.dataCache.key inode o) s.dataCache.memoryCache = none →
        ∀ d, s.dataCache.onDisk (s.dataCache.key inode o) = some d →
          ¬Overlaps (s.dataCache.key inode o).offset d.length offset len) ∧
      (¬s.dataCache.Removes inode offset len (s.dataCache.key inode o) →
        ∀ block, AList.lookup (s.dataCache.key inode o) s.dataCache.memoryCache = some block →
          ¬Overlaps (s.dataCache.key inode o).offset block.data.length offset len)

theorem prefetched_hidden_iff (now : Instant) (inode offset len : ℕ) :
    (∀ t o d, now ≤ t → (s.readahead.getPrefetched t inode o).1 = some d →
        ¬Overlaps o d.length offset len) ↔
      ∀ o entry, AList.lookup ⟨inode, o⟩ s.readahead.prefetchBuffer = some entry →
        entry.isExpired now s.readahead.config.prefetchTtl = false →
        ¬Overlaps o entry.data.length offset len := by
  constructor
  · intro h o entry he hlive
    apply h now o entry.data le_rfl
    rw [ReadaheadManager.getPrefetched_fst]
    exact ⟨entry, he, hlive, rfl⟩
  · intro h t o d hle hd
    rw [ReadaheadManager.getPrefetched_fst] at hd
    obtain ⟨entry, he, hlive, hdata⟩ := hd
    rw [← hdata]
    exact h o entry he (PrefetchedData.isExpired_mono hle hlive)

theorem blocks_hidden_iff (c : DataCache) (inode offset len : ℕ) (key : BlockKey) :
    (∀ faults d, ((c.invalidateRange inode offset len).withFaults faults).visible key = some d →
        ¬Overlaps key.offset d.length offset len) ↔
      (c.Removes inode offset len key ∨ AList.lookup key c.memoryCache = none →
        ∀ d, c.onDisk key = some d → ¬Overlaps key.offset d.length offset len) ∧
      (¬c.Removes inode offset len key → ∀ block, AList.lookup key c.memoryCache = some block →
        ¬Overlaps key.offset block.data.length offset len) := by
  have hdisk : (c.invalidateRange inode offset len).onDisk key = c.onDisk key := rfl
  have hvis := (c.invalidateRange inode offset len).visible_withFaults key fun d =>
    ¬Overlaps key.offset d.length offset len
  rw [c.invalidateRange_lookup, hdisk] at hvis
  rw [hvis]
  by_cases hrem : c.Removes inode offset len key
  · simp [hrem]
  · simp only [hrem, if_false, false_or, not_false_eq_true, true_imp_iff]
    exact and_comm

end ObsFsCore

/-- A successful write hides every older copy of its range exactly when no such copy is
prefetched or on disk. -/
theorem doWrite_hides_iff {s : ObsFsCore} {now : Now} {inode fh offset n : ℕ} {data : Bytes}
    (hok : (s.doWrite now inode fh offset data).1 = .ok n) :
    (s.doWrite now inode fh offset data).2.Hides now.instant inode offset data.length ↔
      s.OnlyMemoryCopies now.instant inode offset data.length := by
  obtain ⟨-, -, hdata, hread⟩ := s.doWrite_ok hok
  unfold ObsFsCore.Hides ObsFsCore.OnlyMemoryCopies
  rw [ObsFsCore.prefetched_hidden_iff, hread, hdata]
  apply and_congr_right
  intro _
  have hkey : ∀ o, (s.dataCache.invalidateRange inode offset data.length).key inode o =
    s.dataCache.key inode o := fun _ => rfl
  have hkey' : ∀ o faults, ((s.dataCache.invalidateRange inode offset data.length).withFaults
    faults).key inode o = s.dataCache.key inode o := fun _ _ => rfl
  simp only [DataCache.get_fst, hkey, hkey']
  exact forall_congr' fun o => imp_congr_right fun _ => ObsFsCore.blocks_hidden_iff _ _ _ _ _

/-- The file `f` with five bytes after three reads of one byte each and the prefetch that
the third read spawns, of the window that ends with the object. -/
def prefetchedFile : ObsFsCore :=
  let s := ObsFsCore.oneFile (.withWindow 2) rfl [1, 2, 3, 4, 5]
  let s := (s.doRead ⟨1, 1⟩ 2 1 0 1).2
  let s := (s.doRead ⟨2, 2⟩ 2 1 1 1).2
  let s := (s.doRead ⟨3, 3⟩ 2 1 2 1).2
  s.prefetchTask ⟨4, 4⟩ 0 true

/-- A write in front of the prefetched bytes hides what was cached of its range. -/
theorem write_before_prefetched_hides :
    (prefetchedFile.doWrite ⟨5, 5⟩ 2 1 0 [9]).2.Hides 5 2 0 1 := by
  have hok : (prefetchedFile.doWrite ⟨5, 5⟩ 2 1 0 [9]).1 = .ok 1 := by decide
  refine (doWrite_hides_iff hok).mpr ⟨?_, ?_⟩
  · intro o entry he _
    have hmem := Table.mem_entries_of_lookup _ he
    have hall : ∀ e ∈ prefetchedFile.readahead.prefetchBuffer.entries,
        ¬Overlaps e.1.offset e.2.data.length 0 1 := by decide
    exact hall _ hmem
  · intro o hmeet
    have hrem := DataCache.removes_of_intersects (by decide) hmeet
    refine ⟨?_, fun hn => absurd hrem hn⟩
    intro _ d hd
    cases hd

/-- A write to prefetched bytes leaves them to be read. -/
theorem write_leaves_prefetched_bytes :
    prefetchedFile.dataCache.OwnBlocks ∧
      (prefetchedFile.doWrite ⟨5, 5⟩ 2 1 3 [9]).1 = .ok 1 ∧
      ((prefetchedFile.doWrite ⟨5, 5⟩ 2 1 3 [9]).2.readahead.getPrefetched 6 2 3).1 =
        some [4, 5] := by
  refine ⟨⟨by decide, ?_⟩, by decide, by decide⟩
  intro disk hd
  cases hd

end ObsFuse
