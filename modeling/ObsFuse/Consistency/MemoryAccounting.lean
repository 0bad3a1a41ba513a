import ObsFuse.Cache.MemoryView
import ObsFuse.Consistency.CacheTruth
import Mathlib.Order.Monotone.Basic

/-! # The counter and the limit of the memory tier

`put` counts the bytes of a block in full, also when it replaces a block that is in
memory already. So the counter may run ahead of the blocks, but it never falls behind
them, and that is enough for the limit. -/

namespace ObsFuse
open Lib

namespace DataCache
variable {c : DataCache} {d : ℕ}

/-- The counter is the total length of the blocks in memory. -/
def CountsMemory (c : DataCache) : Prop := c.memoryUsage = c.heldBytes

instance : DecidablePred CountsMemory := fun _ => inferInstanceAs (Decidable (_ = _))

/-- Making room for `size` bytes evicts the block. -/
def Evicts (c : DataCache) (size : ℕ) (key : BlockKey) : Prop :=
  AList.lookup key (c.roomFor size).memoryCache = none

instance (c : DataCache) (size : ℕ) (key : BlockKey) : Decidable (c.Evicts size key) :=
  inferInstanceAs (Decidable (_ = _))

/-- A `put` finds no bytes in memory under its block, or evicts them to make room. -/
def ReplacesNothing (c : DataCache) : CacheOp → Prop
  | .put inode offset data => ∀ block ∈ AList.lookup (c.key inode offset) c.memoryCache,
    block.data = [] ∨ c.Evicts data.length (c.key inode offset)
  | _ => True

instance decidableReplacesNothing (c : DataCache) :
    (op : CacheOp) → Decidable (c.ReplacesNothing op)
  | .put .. => inferInstanceAs (Decidable (∀ block ∈ _, _ = [] ∨ _))
  | .get .. | .invalidate .. | .invalidateRange .. | .clear => isTrue trivial

/-! ### What each operation does to the drift -/

theorem bytesAt_roomFor_iff (c : DataCache) (size : ℕ) (key : BlockKey) :
    (c.roomFor size).bytesAt key = 0 ↔
      ∀ block ∈ AList.lookup key c.memoryCache, block.data = [] ∨ c.Evicts size key := by
  have hzero := Table.weightAt_eq_zero_iff (fun b : CachedBlock => b.data.length) c.memoryCache
    key (c.roomFor_lookup size key)
  simp only [List.length_eq_zero_iff] at hzero
  exact hzero

theorem get_drift (h : Drift d c) (inode offset : ℕ) : Drift d (c.get inode offset).2 := by
  simp only [get]
  split
  · next block hblock =>
    -- the block is touched in its place
    have hinsert := Table.weight_insert (fun b : CachedBlock => b.data.length) c.memoryCache
      (c.key inode offset) (block.touch c.now)
    rw [Table.weightAt_of_lookup _ _ _ hblock] at hinsert
    have hlen : (block.touch c.now).data.length = block.data.length := rfl
    unfold Drift heldBytes at h ⊢
    show c.memoryUsage = Table.weight (fun b : CachedBlock => b.data.length)
      (c.memoryCache.insert (c.key inode offset) (block.touch c.now)) + d
    omega
  · next hout =>
    split
    · next disk hdisk =>
      split
      · next data disk' _ =>
        -- a block that comes back from disk is not in memory
        have hput : Drift (d + _) _ :=
          putMemory_drift (c := { c.ticked with diskCache := some disk' }) h (c.key inode offset)
            data
        have hnothing : (roomFor { c.ticked with diskCache := some disk' } data.length).bytesAt
            (c.key inode offset) = 0 := by
          rw [bytesAt_roomFor_iff]
          intro block hblock
          have hin : AList.lookup (c.key inode offset) c.memoryCache = some block := hblock
          rw [hout] at hin
          cases hin
        rw [hnothing] at hput
        exact hput
      · exact h
    · exact h

theorem invalidate_drift (h : Drift d c) (inode : ℕ) : Drift d (c.invalidate inode) := by
  have hkeep := Table.weight_keep (fun b : CachedBlock => b.data.length) c.memoryCache
    fun k _ => k.inode ≠ inode
  simp only [ne_eq, decide_not, Bool.not_not] at hkeep
  unfold Drift heldBytes at h ⊢
  simp only [invalidate, ne_eq, decide_not]
  omega

theorem invalidateRange_drift (h : Drift d c) (inode offset len : ℕ) :
    Drift d (c.invalidateRange inode offset len) := by
  have hremove := removeBlocks_weight c.blockSize inode (offset / c.blockSize)
    (c.endBlock offset len - offset / c.blockSize) c.memoryCache
  unfold Drift heldBytes at h ⊢
  simp only [invalidateRange]
  omega

/-- How far the counter is ahead after an operation, if it was ahead by `d`. -/
def driftAfter (c : DataCache) (d : ℕ) : CacheOp → ℕ
  | .put inode offset data => d + (c.roomFor data.length).bytesAt (c.key inode offset)
  | .clear => 0
  | _ => d

theorem step_drift (h : Drift d c) (op : CacheOp) : Drift (c.driftAfter d op) (c.step op) := by
  cases op with
  | put inode offset data => exact putMemory_drift h (c.key inode offset) data
  | get inode offset => exact get_drift h inode offset
  | invalidate inode => exact invalidate_drift h inode
  | invalidateRange inode offset len => exact invalidateRange_drift h inode offset len
  | clear => rfl

theorem step_countsMemory_iff (h : c.CountsMemory) (op : CacheOp) :
    (c.step op).CountsMemory ↔ c.ReplacesNothing op := by
  have hstart : Drift 0 c := h
  have hdrift := step_drift hstart op
  have hzero : (c.step op).CountsMemory ↔ c.driftAfter 0 op = 0 := by
    unfold Drift at hdrift
    unfold CountsMemory
    omega
  rw [hzero]
  cases op with
  | put inode offset data =>
    simp only [driftAfter, ReplacesNothing, Nat.zero_add]
    exact c.bytesAt_roomFor_iff data.length (c.key inode offset)
  | get inode offset => exact Iff.intro (fun _ => trivial) fun _ => rfl
  | invalidate inode => exact Iff.intro (fun _ => trivial) fun _ => rfl
  | invalidateRange inode offset len => exact Iff.intro (fun _ => trivial) fun _ => rfl
  | clear => exact Iff.intro (fun _ => trivial) fun _ => rfl

end DataCache

/-- In every run from a new cache, the counter is the total length of the blocks in memory in
every state exactly when no `put` replaces bytes that are in memory. -/
theorem memory_usage_exact_iff (blockSize : ℕ) (pos : 0 < blockSize) (memoryLimit : ℕ)
    (disk : Option DiskCache) (clock : ℕ → Instant) (order : IterOrder MemItem)
    (ops : List CacheOp) :
    (∀ n, (run DataCache.step (.new blockSize pos memoryLimit disk clock order)
        (ops.take n)).CountsMemory) ↔
      Along DataCache.step DataCache.ReplacesNothing
        (.new blockSize pos memoryLimit disk clock order) ops :=
  @forall_states_iff_along _ _ DataCache.step DataCache.ReplacesNothing (fun _ => True)
    DataCache.CountsMemory (fun _ _ _ => trivial)
    (fun _ op _ h => DataCache.step_countsMemory_iff h op) _ ops trivial rfl

/-- Two blocks are put, and the second evicts the first. -/
theorem evicting_put_counts_exactly :
    (run DataCache.step (.new 4 (by decide) 5 none id .storage)
      [.put 2 0 [1, 2, 3], .put 2 4 [4, 5, 6], .get 2 4]).CountsMemory :=
  (memory_usage_exact_iff 4 (by decide) 5 none id .storage
    [.put 2 0 [1, 2, 3], .put 2 4 [4, 5, 6], .get 2 4]).mpr (by decide) 3

/-- The same block is put twice: two bytes are in memory and four are counted. -/
theorem second_put_counts_twice :
    let c := run DataCache.step (.new 4 (by decide) 8 none id .storage)
      [.put 2 0 [1, 2], .put 2 0 [3, 4]]
    c.memoryUsage = 4 ∧ c.heldBytes = 2 ∧ ¬c.CountsMemory := by
  decide

/-! ### The limit -/

namespace DiskCache

/-- No file in the cache directory is longer than `limit`. -/
def FilesWithin (limit : ℕ) (d : DiskCache) : Prop :=
  ∀ path, ∀ data ∈ AList.lookup path d.files, data.length ≤ limit

variable {limit : ℕ} {d : DiskCache}

theorem FilesWithin.of_sub {d' : DiskCache} (h : d.FilesWithin limit)
    (hsub : ∀ path data, AList.lookup path d'.files = some data →
      AList.lookup path d.files = some data) : d'.FilesWithin limit :=
  fun path data hdata => h path data (hsub path data hdata)

theorem FilesWithin.makeRoom (h : d.FilesWithin limit) (size k : ℕ) :
    (makeRoom size k d).2.FilesWithin limit := by
  induction k generalizing d with
  | zero => exact h
  | succ k ih =>
    unfold DiskCache.makeRoom
    split
    · cases he : d.evictOneLocked with
      | none => exact h
      | some d' =>
        refine ih (h.of_sub ?_)
        intro path data hdata
        unfold evictOneLocked at he
        split at he
        · cases he
          exact Table.lookup_of_erase hdata
        · cases he
    · exact h

theorem FilesWithin.put (h : d.FilesWithin limit) (now : Instant) (key : BlockKey) {data : Bytes}
    (hdata : data.length ≤ limit) : (d.put now key data).FilesWithin limit := by
  have hroom := h.makeRoom data.length (d.entries.entries.length + 1)
  simp only [DiskCache.put]
  generalize DiskCache.makeRoom data.length (d.entries.entries.length + 1) d = r at hroom
  obtain ⟨_ | _, d'⟩ := r
  · exact hroom
  · dsimp only
    split
    · exact Table.forall_lookup_insert hroom (d.filePath key) hdata
    · exact hroom
    · next written _ =>
      refine Table.forall_lookup_insert hroom (d.filePath key) ?_
      exact (List.length_take_le' written data).trans hdata

theorem FilesWithin.get (h : d.FilesWithin limit) (now : Instant) (key : BlockKey) :
    (d.get now key).2.FilesWithin limit ∧ ∀ data ∈ (d.get now key).1, data.length ≤ limit := by
  unfold DiskCache.get
  split
  · next entry _ =>
    refine ⟨h, ?_⟩
    dsimp only
    split
    · exact h entry.path
    · exact fun data hdata => by cases hdata
  · exact ⟨h, fun data hdata => by cases hdata⟩

end DiskCache

namespace DataCache
variable {c : DataCache} {limit size : ℕ}

theorem heldBytes_eq_zero (h : c.memoryCache.entries = []) : c.heldBytes = 0 := by
  unfold heldBytes Table.weight
  rw [h]
  rfl

/-- Every block in memory was used before now. -/
def UsedBefore (c : DataCache) : Prop :=
  ∀ key, ∀ block ∈ AList.lookup key c.memoryCache, ∀ n, c.tick ≤ n →
    block.lastAccess < c.clock n

theorem UsedBefore.of_sub {c' : DataCache} (h : c.UsedBefore) (hclock : c'.clock = c.clock)
    (htick : c.tick ≤ c'.tick)
    (hsub : ∀ key block, AList.lookup key c'.memoryCache = some block →
      AList.lookup key c.memoryCache = some block) : c'.UsedBefore := by
  intro key block hblock n hn
  rw [hclock]
  exact h key block (hsub key block hblock) n (htick.trans hn)

theorem UsedBefore.insert {c' : DataCache} (h : c.UsedBefore) (hticks : StrictMono c.clock)
    {key : BlockKey} {block : CachedBlock} (hnow : block.lastAccess = c.now)
    (hclock : c'.clock = c.clock) (htick : c.tick < c'.tick)
    (hmap : c'.memoryCache = c.memoryCache.insert key block) : c'.UsedBefore := by
  intro k b hb n hn
  have hlater : c.tick < n := Nat.lt_of_lt_of_le htick hn
  rw [hmap] at hb
  rw [hclock]
  rcases Table.lookup_insert_cases hb with ⟨-, rfl⟩ | ⟨-, hold⟩
  · rw [hnow]
    exact hticks hlater
  · exact h k b hold n (Nat.le_of_lt hlater)

/-- What keeps the blocks within the limit: the counter is not behind them, every block was
used before now, and the disk tier has no block to give back that is too long. -/
structure Bounded (limit : ℕ) (c : DataCache) : Prop where
  bound : c.memoryLimit = limit
  ticks : StrictMono c.clock
  counted : ∃ d ≤ limit, Drift d c
  held : c.heldBytes ≤ limit
  used : ∀ key, ∀ block ∈ AList.lookup key c.memoryCache, ∀ n, c.tick ≤ n →
    block.lastAccess < c.clock n
  disk : ∀ d ∈ c.diskCache, d.FilesWithin limit

/-! ### Some block is always old enough to be evicted -/

theorem lruScan_found {limit : Instant} {key : BlockKey} (es : List MemItem) :
    ∃ k, lruScan limit (some key) es = some k := by
  induction es generalizing limit key with
  | nil => exact ⟨key, rfl⟩
  | cons e es ih =>
    unfold lruScan
    split
    · exact ih
    · exact ih

/-- A scan that finds a block has found one with the least access time. -/
theorem lruScan_least {limit : Instant} {found : Option BlockKey} {es : List MemItem}
    {key : BlockKey} (h : lruScan limit found es = some key) :
    (found = some key ∧ ∀ e ∈ es, limit ≤ e.2.lastAccess) ∨
      ∃ e ∈ es, e.1 = key ∧ e.2.lastAccess < limit ∧
        ∀ e' ∈ es, e.2.lastAccess ≤ e'.2.lastAccess := by
  induction es generalizing limit found with
  | nil => exact .inl ⟨h, List.forall_mem_nil _⟩
  | cons e es ih =>
    unfold lruScan at h
    split at h
    · next hlt =>
      right
      rcases ih h with ⟨hhead, hall⟩ | ⟨e', he', hkey, hlt', hall⟩
      · exact ⟨e, List.mem_cons_self .., Option.some.inj hhead, hlt,
          List.forall_mem_cons.mpr ⟨Nat.le_refl _, hall⟩⟩
      · exact ⟨e', List.mem_cons_of_mem _ he', hkey, Nat.lt_trans hlt' hlt,
          List.forall_mem_cons.mpr ⟨Nat.le_of_lt hlt', hall⟩⟩
    · next hle =>
      have hhead : limit ≤ e.2.lastAccess := Nat.le_of_not_lt hle
      rcases ih h with ⟨hfound, hall⟩ | ⟨e', he', hkey, hlt', hall⟩
      · exact .inl ⟨hfound, List.forall_mem_cons.mpr ⟨hhead, hall⟩⟩
      · exact .inr ⟨e', List.mem_cons_of_mem _ he', hkey, hlt',
          List.forall_mem_cons.mpr ⟨Nat.le_of_lt (Nat.lt_of_lt_of_le hlt' hhead), hall⟩⟩

/-- A scan of blocks that were all used before now finds one. -/
theorem lruScan_some {limit : Instant} {es : List MemItem} (hne : es ≠ [])
    (hold : ∀ e ∈ es, e.2.lastAccess < limit) :
    ∃ e ∈ es, lruScan limit none es = some e.1 ∧ ∀ e' ∈ es, e.2.lastAccess ≤ e'.2.lastAccess := by
  cases es with
  | nil => exact absurd rfl hne
  | cons e es =>
    obtain ⟨k, hk⟩ := @lruScan_found e.2.lastAccess e.1 es
    have hscan : lruScan limit none (e :: es) = some k := by
      unfold lruScan
      rw [if_pos (hold e (List.mem_cons_self ..)), hk]
    rcases lruScan_least hscan with ⟨hnone, -⟩ | ⟨e', he', hkey, -, hall⟩
    · cases hnone
    · exact ⟨e', he', by rw [hkey, hscan], hall⟩

/-- Where every block in memory was used before now, `evict_one` takes out one of those with
the least access time. -/
theorem evictOne_takes (hused : ∀ key, ∀ block ∈ AList.lookup key c.memoryCache,
      block.lastAccess < c.now) (hne : c.memoryCache.entries ≠ []) :
    ∃ key block, AList.lookup key c.memoryCache = some block ∧
      c.evictOne.1 = some block.data.length ∧
      c.evictOne.2.memoryCache = c.memoryCache.erase key ∧
      ∀ k, ∀ b ∈ AList.lookup k c.memoryCache, block.lastAccess ≤ b.lastAccess := by
  have hperm := c.order.perm c.memoryCache.entries
  have hvisit : c.order.visit c.memoryCache.entries ≠ [] := by
    intro hnil
    rw [hnil] at hperm
    exact hne hperm.nil_eq.symm
  have hold : ∀ e ∈ c.order.visit c.memoryCache.entries, e.2.lastAccess < c.now := by
    intro e he
    exact hused e.1 e.2 (c.memoryCache.lookup_of_mem_entries (hperm.mem_iff.mp he))
  obtain ⟨e, he, hscan, hleast⟩ := lruScan_some hvisit hold
  have hblock : AList.lookup e.1 c.ticked.memoryCache = some e.2 :=
    c.memoryCache.lookup_of_mem_entries (hperm.mem_iff.mp he)
  have htaken : c.evictOne.1 = some e.2.data.length ∧
      c.evictOne.2.memoryCache = c.memoryCache.erase e.1 := by
    unfold evictOne
    rw [hscan]
    dsimp only
    rw [hblock]
    dsimp only
    split
    · exact ⟨rfl, rfl⟩
    · exact ⟨rfl, rfl⟩
  refine ⟨e.1, e.2, hblock, htaken.1, htaken.2, ?_⟩
  intro k b hb
  exact hleast ⟨k, b⟩ (hperm.mem_iff.mpr (c.memoryCache.mem_entries_of_lookup hb))

/-- Blocks are only taken away, and no time passes. -/
structure Shrinks (c c' : DataCache) : Prop where
  bound : c'.memoryLimit = c.memoryLimit
  clock : c'.clock = c.clock
  tick : c'.tick = c.tick
  held : c'.heldBytes ≤ c.heldBytes
  memory : ∀ key block, AList.lookup key c'.memoryCache = some block →
    AList.lookup key c.memoryCache = some block
  disk : ∀ d' ∈ c'.diskCache, ∃ d ∈ c.diskCache, ∀ path data,
    AList.lookup path d'.files = some data → AList.lookup path d.files = some data

theorem invalidate_shrinks (c : DataCache) (inode : ℕ) : c.Shrinks (c.invalidate inode) := by
  refine ⟨rfl, rfl, rfl, ?_, ?_, ?_⟩
  · have hkeep := Table.weight_keep (fun b : CachedBlock => b.data.length) c.memoryCache
      fun k _ => k.inode ≠ inode
    unfold heldBytes
    simp only [invalidate]
    omega
  · intro key block hblock
    simp only [invalidate, Table.lookup_keep, Option.filter_eq_some_iff] at hblock
    exact hblock.1
  · intro d' hd'
    obtain ⟨disk, hdisk, rfl⟩ := Option.map_eq_some_iff.mp hd'
    exact ⟨disk, hdisk, fun path data hdata => Table.lookup_of_foldl_erase hdata⟩

theorem removeBlocks_lookup (blockSize inode b n : ℕ) (t : Table BlockKey CachedBlock)
    {key : BlockKey} {block : CachedBlock}
    (h : AList.lookup key (removeBlocks blockSize inode b n t).2 = some block) :
    AList.lookup key t = some block := by
  induction n generalizing b t with
  | zero => exact h
  | succ n ih => exact Table.lookup_of_erase (ih (b + 1) _ h)

theorem invalidateRange_shrinks (c : DataCache) (inode offset len : ℕ) :
    c.Shrinks (c.invalidateRange inode offset len) := by
  refine ⟨rfl, rfl, rfl, ?_, ?_, ?_⟩
  · have hremove := removeBlocks_weight c.blockSize inode (offset / c.blockSize)
      (c.endBlock offset len - offset / c.blockSize) c.memoryCache
    unfold heldBytes
    simp only [invalidateRange]
    omega
  · exact fun key block hblock => removeBlocks_lookup _ _ _ _ _ hblock
  · exact fun d' hd' => ⟨d', hd', fun _ _ hdata => hdata⟩

theorem clear_shrinks (c : DataCache) : c.Shrinks c.clear := by
  refine ⟨rfl, rfl, rfl, Nat.zero_le _, ?_, ?_⟩
  · intro key block hblock
    cases hblock
  · intro d' hd'
    obtain ⟨disk, hdisk, rfl⟩ := Option.map_eq_some_iff.mp hd'
    exact ⟨disk, hdisk, fun path data hdata => Table.lookup_of_foldl_erase hdata⟩

/-- The block that the operation inserts, if any, is at most `limit` bytes long. -/
def Inserts (limit : ℕ) : CacheOp → Prop
  | .put _ _ data => data.length ≤ limit
  | _ => True

instance decidableInserts (limit : ℕ) : (op : CacheOp) → Decidable (Inserts limit op)
  | .put _ _ data => inferInstanceAs (Decidable (data.length ≤ limit))
  | .get _ _ | .invalidate _ | .invalidateRange _ _ _ | .clear => isTrue trivial

namespace Bounded

theorem evictRound_goes_on (h : Bounded limit c) (htest : NoRoom size c) :
    c.evictRound.1 = true := by
  have hused : ∀ key, ∀ block ∈ AList.lookup key c.memoryCache, block.lastAccess < c.now :=
    fun key block hblock => h.used key block hblock c.tick (Nat.le_refl _)
  obtain ⟨key, block, -, hsome, -⟩ := evictOne_takes hused htest.2
  unfold DataCache.evictRound
  generalize c.evictOne = r at hsome
  obtain ⟨evicted, c'⟩ := r
  cases hsome
  rfl

theorem evictRound (h : Bounded limit c) (htest : NoRoom size c) :
    Bounded limit c.evictRound.2 := by
  obtain ⟨d, hle, hd⟩ := h.counted
  obtain ⟨hlimit, hcases⟩ := c.evictRound_cases
  obtain ⟨hclock, htick, hdisk⟩ := c.evictRound_frame
  refine ⟨?_, ?_, ⟨d, hle, evictRound_drift c hd htest⟩, ?_, ?_, ?_⟩
  · rw [hlimit, h.bound]
  · rw [hclock]
    exact h.ticks
  · have hheld := h.held
    unfold heldBytes at hheld ⊢
    rcases hcases with ⟨-, hmap, -⟩ | ⟨key, block, -, -, hmap, -⟩
    · rw [hmap]
      exact hheld
    · have herase := Table.weight_erase (fun b : CachedBlock => b.data.length) c.memoryCache key
      rw [hmap]
      omega
  · exact UsedBefore.of_sub h.used hclock htick fun _ _ => c.evictRound_lookup
  · intro disk' hdisk'
    rw [hdisk] at hdisk'
    obtain ⟨disk, hin, rfl | ⟨now, key, block, hblock, rfl⟩⟩ := c.evictOne_disk hdisk'
    · exact h.disk _ hin
    · refine (h.disk disk hin).put now key ?_
      have hle := Table.weightAt_le (fun b : CachedBlock => b.data.length) c.memoryCache key
      rw [Table.weightAt_of_lookup _ _ _ hblock] at hle
      exact hle.trans h.held

theorem putMemory (h : Bounded limit c) (key : BlockKey) {data : Bytes}
    (hdata : data.length ≤ limit) : Bounded limit (c.putMemory key data) := by
  obtain ⟨on, hloop⟩ := c.roomFor_loop data.length
  have hkeep : ∀ c, Bounded limit c → NoRoom data.length c → Bounded limit c.evictRound.2 :=
    fun _ h htest => h.evictRound htest
  have hroom : Bounded limit (c.roomFor data.length) := hloop.invariant hkeep h
  have hend : on = true := hloop.ends_by_test hkeep (fun _ h htest => h.evictRound_goes_on htest) h
  have hfits : ¬NoRoom data.length (c.roomFor data.length) := hloop.not_test hend
  rw [putMemory_eq]
  generalize c.roomFor data.length = c' at hroom hfits
  obtain ⟨d, hle, hd⟩ := hroom.counted
  have hinsert := Table.weight_insert (fun b : CachedBlock => b.data.length) c'.memoryCache key
    (.new c'.now data)
  have hlen : (CachedBlock.new c'.now data).data.length = data.length := rfl
  have hold : c'.bytesAt key ≤ c'.heldBytes := Table.weightAt_le ..
  -- there is room, or nothing is left in memory
  have hroomy : c'.memoryUsage + data.length ≤ limit ∨ c'.heldBytes = 0 := by
    by_cases hempty : c'.memoryCache.entries = []
    · exact .inr (heldBytes_eq_zero hempty)
    · left
      by_contra hfull
      have hbound := hroom.bound
      exact hfits ⟨by omega, hempty⟩
  unfold Drift at hd
  refine ⟨hroom.bound, hroom.ticks, ⟨d + c'.bytesAt key, ?_, store_drift hd key data⟩, ?_, ?_,
    hroom.disk⟩
  · omega
  · show Table.weight (fun b : CachedBlock => b.data.length)
      (c'.memoryCache.insert key (.new c'.now data)) ≤ limit
    unfold heldBytes at hroomy hd
    omega
  · exact UsedBefore.insert hroom.used hroom.ticks rfl rfl (Nat.lt_succ_self _) rfl

theorem get (h : Bounded limit c) (inode offset : ℕ) : Bounded limit (c.get inode offset).2 := by
  have hticked : Bounded limit c.ticked :=
    ⟨h.bound, h.ticks, h.counted, h.held,
      fun key block hblock n hn => h.used key block hblock n (Nat.le_of_succ_le hn), h.disk⟩
  obtain ⟨d, hle, hd⟩ := h.counted
  have hdrift := get_drift hd inode offset
  simp only [DataCache.get] at hdrift ⊢
  split
  · next block hblock =>
    have hinsert := Table.weight_insert (fun b : CachedBlock => b.data.length) c.memoryCache
      (c.key inode offset) (block.touch c.now)
    rw [Table.weightAt_of_lookup _ _ _ hblock] at hinsert
    have hlen : (block.touch c.now).data.length = block.data.length := rfl
    rw [hblock] at hdrift
    refine ⟨h.bound, h.ticks, ⟨d, hle, hdrift⟩, ?_, ?_, h.disk⟩
    · have hheld := h.held
      unfold heldBytes at hheld
      show Table.weight (fun b : CachedBlock => b.data.length)
        (c.memoryCache.insert (c.key inode offset) (block.touch c.now)) ≤ limit
      omega
    · exact UsedBefore.insert h.used h.ticks rfl rfl (Nat.lt_succ_self _) rfl
  · split
    · next disk hdisk =>
      obtain ⟨hfiles, hanswer⟩ := (h.disk disk hdisk).get c.now (c.key inode offset)
      have hnext : ∀ disk', disk'.FilesWithin limit →
          Bounded limit { c.ticked with diskCache := some disk' } := by
        intro disk' hwithin
        refine ⟨hticked.bound, hticked.ticks, hticked.counted, hticked.held, hticked.used, ?_⟩
        intro d' hd'
        cases hd'
        exact hwithin
      generalize disk.get c.now (c.key inode offset) = r at hfiles hanswer
      obtain ⟨_ | data, disk'⟩ := r
      · exact hnext disk' hfiles
      · exact (hnext disk' hfiles).putMemory (c.key inode offset) (hanswer data rfl)
    · exact h

theorem of_shrinks {c' : DataCache} (h : Bounded limit c) (hs : c.Shrinks c')
    (hdrift : ∃ d ≤ limit, Drift d c') : Bounded limit c' where
  bound := by rw [hs.bound, h.bound]
  ticks := by rw [hs.clock]; exact h.ticks
  counted := hdrift
  held := hs.held.trans h.held
  used := UsedBefore.of_sub h.used hs.clock (Nat.le_of_eq hs.tick.symm) hs.memory
  disk d' hd' := by
    obtain ⟨d, hin, hfiles⟩ := hs.disk d' hd'
    exact (h.disk d hin).of_sub hfiles

theorem step (h : Bounded limit c) (op : CacheOp) (hop : Inserts limit op) :
    Bounded limit (c.step op) := by
  obtain ⟨d, hle, hd⟩ := h.counted
  have hdrift := step_drift hd op
  cases op with
  | put inode offset data => exact h.putMemory (c.key inode offset) hop
  | get inode offset => exact h.get inode offset
  | invalidate inode => exact h.of_shrinks (c.invalidate_shrinks inode) ⟨d, hle, hdrift⟩
  | invalidateRange inode offset len =>
    exact h.of_shrinks (c.invalidateRange_shrinks inode offset len) ⟨d, hle, hdrift⟩
  | clear => exact h.of_shrinks c.clear_shrinks ⟨0, Nat.zero_le _, hdrift⟩

theorem new (blockSize : ℕ) (pos : 0 < blockSize) (limit : ℕ) {disk : Option DiskCache}
    (hdisk : ∀ d ∈ disk, d.files = ∅) {clock : ℕ → Instant} (hclock : StrictMono clock)
    (order : IterOrder MemItem) : Bounded limit (.new blockSize pos limit disk clock order) where
  bound := rfl
  ticks := hclock
  counted := ⟨0, Nat.zero_le _, rfl⟩
  held := Nat.zero_le _
  used key block hblock := by cases hblock
  disk d hd path data hdata := by
    rw [hdisk d hd] at hdata
    cases hdata

/-- The counter is never more than twice the limit, so that below 2^62 no sum of the source
wraps. -/
theorem memoryUsage_le (h : Bounded limit c) : c.memoryUsage ≤ 2 * limit := by
  obtain ⟨d, hle, hd⟩ := h.counted
  have hheld := h.held
  unfold Drift at hd
  omega

end Bounded

end DataCache

/-- With readings of the clock that increase and no block longer than the limit, the blocks
in memory are within the limit after every operation of every run from a new cache, whatever
file operations fail, and each eviction loop ends. -/
theorem memory_within_limit (blockSize : ℕ) (pos : 0 < blockSize) (memoryLimit : ℕ)
    (disk : Option (Str × ℕ × IterOrder DiskItem × (ℕ → Option FileFault)))
    (clock : ℕ → Instant) (hclock : StrictMono clock) (order : IterOrder MemItem)
    (ops : List CacheOp) (hops : ∀ op ∈ ops, DataCache.Inserts memoryLimit op) :
    (∀ n, (run DataCache.step (.new blockSize pos memoryLimit
        (disk.map fun d => .new d.1 d.2.1 d.2.2.1 d.2.2.2) clock order)
          (ops.take n)).heldBytes ≤ memoryLimit) ∧
      ∀ (c : DataCache) (key : BlockKey) (data : Bytes), ∃ r,
        Loop (DataCache.NoRoom data.length) DataCache.evictRound c r ∧
          c.putMemory key data = r.2.store key data := by
  refine ⟨?_, ?_⟩
  · intro n
    have hempty : ∀ d ∈ disk.map fun d => DiskCache.new d.1 d.2.1 d.2.2.1 d.2.2.2,
        d.files = ∅ := by
      intro d hd
      obtain ⟨settings, -, rfl⟩ := Option.map_eq_some_iff.mp hd
      rfl
    have hnew := DataCache.Bounded.new blockSize pos memoryLimit hempty hclock order
    have hfits : ∀ op ∈ ops.take n, DataCache.Inserts memoryLimit op :=
      fun op hop => hops op (List.mem_of_mem_take hop)
    exact (run_invariant_of_forall (fun c op h hop => h.step op hop) hnew hfits).held
  · intro c key data
    obtain ⟨on, hloop⟩ := c.roomFor_loop data.length
    exact ⟨_, hloop, c.putMemory_eq key data⟩

/-- Three blocks of three bytes go through a tier of eight, and the first comes back. -/
theorem evicted_blocks_within_limit :
    (run DataCache.step
      (.new 4 (by decide) 8 (some (.new ['d'] 100 .storage fun _ => none)) id .storage)
      [.put 2 0 [1, 2, 3], .put 2 4 [4, 5, 6], .put 2 8 [7, 8, 9], .get 2 0]).heldBytes ≤ 8 := by
  have h := (memory_within_limit 4 (by decide) 8 (some (['d'], 100, .storage, fun _ => none)) id
    strictMono_id .storage [.put 2 0 [1, 2, 3], .put 2 4 [4, 5, 6], .put 2 8 [7, 8, 9], .get 2 0]
    (by decide)).1 4
  exact h

end ObsFuse
