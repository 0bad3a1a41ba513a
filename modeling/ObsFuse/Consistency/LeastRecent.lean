import ObsFuse.Consistency.MemoryAccounting
import Mathlib.Logic.Function.Basic

/-! # The block that an eviction takes

A run of cache operations is followed by the number of the operation that last put or hit each
block. The access times of the blocks in memory are in the order of these numbers, so the scan
of `evict_one`, which goes by the times, finds the block whose last use is the oldest. -/

namespace ObsFuse
open Lib

namespace DataCache

/-- The block that the operation puts or hits. -/
def uses (c : DataCache) : CacheOp → Option BlockKey
  | .put inode offset _ => some (c.key inode offset)
  | .get inode offset => (c.get inode offset).1.map fun _ => c.key inode offset
  | _ => none

/-- The call of `put_memory` in `get`, for a block that is found on disk: the cache, the block
and its data. -/
def promotion (c : DataCache) (inode offset : ℕ) : Option (DataCache × BlockKey × Bytes) :=
  match AList.lookup (c.key inode offset) c.memoryCache with
  | some _ => none
  | none =>
    match c.diskCache with
    | some disk =>
      match disk.get c.now (c.key inode offset) with
      | (some data, disk) =>
        some ({ c.ticked with diskCache := some disk }, c.key inode offset, data)
      | (none, _) => none
    | none => none

def insertion (c : DataCache) : CacheOp → Option (DataCache × BlockKey × Bytes)
  | .put inode offset data => some (c, c.key inode offset, data)
  | .get inode offset => c.promotion inode offset
  | _ => none

/-- In the course of the operation, `evict_one` is called in the state `t`. -/
def CallsEvictOne (c : DataCache) (op : CacheOp) (t : DataCache) : Prop :=
  ∃ c' key data, c.insertion op = some (c', key, data) ∧
    Enters (NoRoom data.length) evictRound c' t

/-- `evict_one` takes one block out of memory, the one that was used before all that stay, and
leaves the others as they are. -/
def EvictsLeastRecent (c : DataCache) (lastUse : BlockKey → ℕ) : Prop :=
  ∃ key block, AList.lookup key c.memoryCache = some block ∧
    c.evictOne.1 = some block.data.length ∧
    (∀ k, AList.lookup k c.evictOne.2.memoryCache =
      if k = key then none else AList.lookup k c.memoryCache) ∧
    ∀ k ∈ c.evictOne.2.memoryCache, lastUse key < lastUse k

end DataCache

structure UsedCache where
  cache : DataCache
  lastUse : BlockKey → ℕ
  count : ℕ

def UsedCache.start (c : DataCache) : UsedCache := ⟨c, fun _ => 0, 0⟩

def UsedCache.step (s : UsedCache) (op : CacheOp) : UsedCache where
  cache := s.cache.step op
  lastUse :=
    match s.cache.uses op with
    | some key => Function.update s.lastUse key s.count
    | none => s.lastUse
  count := s.count + 1

namespace DataCache
variable {c c' t : DataCache} {op : CacheOp} {key : BlockKey} {data : Bytes}

theorem promotion_spec {inode offset : ℕ}
    (h : c.promotion inode offset = some (c', key, data)) :
    (c.get inode offset).2 = c'.putMemory key data ∧ c'.clock = c.clock ∧ c.tick ≤ c'.tick ∧
      c'.memoryCache = c.memoryCache := by
  unfold promotion at h
  unfold get
  cases hm : AList.lookup (c.key inode offset) c.memoryCache with
  | some block =>
    rw [hm] at h
    cases h
  | none =>
    rw [hm] at h
    cases hd : c.diskCache with
    | none =>
      rw [hd] at h
      cases h
    | some disk =>
      rw [hd] at h
      dsimp only at h ⊢
      rw [hm]
      dsimp only
      generalize disk.get c.now (c.key inode offset) = r at h ⊢
      obtain ⟨_ | found, disk'⟩ := r
      · cases h
      · cases h
        exact ⟨rfl, rfl, Nat.le_succ _, rfl⟩

theorem insertion_spec (h : c.insertion op = some (c', key, data)) :
    c.step op = c'.putMemory key data ∧ c'.clock = c.clock ∧ c.tick ≤ c'.tick ∧
      c'.memoryCache = c.memoryCache := by
  cases op with
  | put inode offset d =>
    cases h
    exact ⟨rfl, rfl, Nat.le_refl _, rfl⟩
  | get inode offset => exact promotion_spec h
  | invalidate inode => cases h
  | invalidateRange inode offset len => cases h
  | clear => cases h

/-- A state in which `evict_one` is called lies on the way to the end of the operation. -/
theorem CallsEvictOne.step_eq (h : c.CallsEvictOne op t) :
    ∃ key data, NoRoom data.length t ∧ c.step op = t.putMemory key data := by
  obtain ⟨c', key, data, hins, henters⟩ := h
  refine ⟨key, data, henters.test_holds, ?_⟩
  obtain ⟨on, hloop⟩ := c'.roomFor_loop data.length
  obtain ⟨on', hloop'⟩ := t.roomFor_loop data.length
  have hsame : (on, c'.roomFor data.length) = (on', t.roomFor data.length) :=
    (henters.loop hloop).unique hloop'
  rw [(insertion_spec hins).1, putMemory_eq, putMemory_eq, (Prod.mk.inj hsame).2]

/-! ### The order of the uses -/

structure Ordered (lastUse : BlockKey → ℕ) (count : ℕ) (c : DataCache) : Prop where
  ticks : StrictMono c.clock
  used : c.UsedBefore
  counted : ∀ key, ∀ _block ∈ AList.lookup key c.memoryCache, lastUse key < count
  order : ∀ key, ∀ block ∈ AList.lookup key c.memoryCache, ∀ key',
    ∀ block' ∈ AList.lookup key' c.memoryCache, key ≠ key' →
      block.lastAccess ≤ block'.lastAccess → lastUse key < lastUse key'

namespace Ordered
variable {lastUse : BlockKey → ℕ} {count : ℕ}

theorem of_sub (h : Ordered lastUse count c) (hclock : c'.clock = c.clock)
    (htick : c.tick ≤ c'.tick)
    (hsub : ∀ key block, AList.lookup key c'.memoryCache = some block →
      AList.lookup key c.memoryCache = some block) : Ordered lastUse count c' where
  ticks := by
    rw [hclock]
    exact h.ticks
  used := h.used.of_sub hclock htick hsub
  counted key block hblock := h.counted key block (hsub key block hblock)
  order key block hblock key' block' hblock' :=
    h.order key block (hsub key block hblock) key' block' (hsub key' block' hblock')

theorem later (h : Ordered lastUse count c) : Ordered lastUse (count + 1) c where
  ticks := h.ticks
  used := h.used
  counted key block hblock := Nat.lt_succ_of_lt (h.counted key block hblock)
  order := h.order

theorem use (h : Ordered lastUse count c) {block : CachedBlock} (hnow : block.lastAccess = c.now)
    (hclock : c'.clock = c.clock) (htick : c.tick < c'.tick)
    (hmap : c'.memoryCache = c.memoryCache.insert key block) :
    Ordered (Function.update lastUse key count) (count + 1) c' where
  ticks := by
    rw [hclock]
    exact h.ticks
  used := h.used.insert h.ticks hnow hclock htick hmap
  counted k b hb := by
    rw [hmap] at hb
    rcases Table.lookup_insert_cases hb with ⟨rfl, -⟩ | ⟨hne, hold⟩
    · rw [Function.update_self]
      exact Nat.lt_succ_self count
    · rw [Function.update_of_ne hne]
      exact Nat.lt_succ_of_lt (h.counted k b hold)
  order k b hb k' b' hb' hkk hle := by
    rw [hmap] at hb hb'
    rcases Table.lookup_insert_cases hb with ⟨rfl, rfl⟩ | ⟨hne, hold⟩
    · rcases Table.lookup_insert_cases hb' with ⟨rfl, -⟩ | ⟨-, hold'⟩
      · exact absurd rfl hkk
      · -- the other block was used earlier
        have hearlier := h.used k' b' hold' c.tick (Nat.le_refl _)
        rw [hnow] at hle
        exact absurd hle (Nat.not_le_of_lt hearlier)
    · rw [Function.update_of_ne hne]
      rcases Table.lookup_insert_cases hb' with ⟨rfl, -⟩ | ⟨hne', hold'⟩
      · rw [Function.update_self]
        exact h.counted k b hold
      · rw [Function.update_of_ne hne']
        exact h.order k b hold k' b' hold' hkk hle

theorem evictRound (h : Ordered lastUse count c) : Ordered lastUse count c.evictRound.2 := by
  obtain ⟨hclock, htick, -⟩ := c.evictRound_frame
  exact h.of_sub hclock htick fun _ _ => c.evictRound_lookup

theorem putMemory (h : Ordered lastUse count c) (key : BlockKey) (data : Bytes) :
    Ordered (Function.update lastUse key count) (count + 1) (c.putMemory key data) := by
  obtain ⟨on, hloop⟩ := c.roomFor_loop data.length
  have hroom : Ordered lastUse count (c.roomFor data.length) :=
    hloop.invariant (fun _ h _ => h.evictRound) h
  rw [putMemory_eq]
  exact hroom.use rfl rfl (Nat.lt_succ_self _) rfl

/-- The cache after a `get`, with the use that a hit counts as. -/
theorem get (h : Ordered lastUse count c) (inode offset : ℕ) :
    Ordered
      (match c.uses (.get inode offset) with
        | some key => Function.update lastUse key count
        | none => lastUse)
      (count + 1) (c.get inode offset).2 := by
  have huses : c.uses (.get inode offset) =
      (c.get inode offset).1.map fun _ => c.key inode offset := rfl
  rw [huses]
  cases hm : AList.lookup (c.key inode offset) c.memoryCache with
  | some block =>
    rw [get_memory hm]
    exact h.use rfl rfl (Nat.lt_succ_self _) rfl
  | none =>
    cases hd : c.diskCache with
    | none =>
      rw [get_miss hm hd]
      exact h.later
    | some disk =>
      rw [get_disk hm hd]
      have hread : Ordered lastUse count
          { c.ticked with diskCache := some (disk.get c.now (c.key inode offset)).2 } :=
        h.of_sub rfl (Nat.le_succ _) fun _ _ hblock => hblock
      cases disk.answer (c.key inode offset) with
      | none => exact hread.later
      | some data => exact hread.putMemory (c.key inode offset) data

theorem of_shrinks (h : Ordered lastUse count c) (hs : c.Shrinks c') :
    Ordered lastUse (count + 1) c' :=
  (h.of_sub hs.clock (Nat.le_of_eq hs.tick.symm) hs.memory).later

theorem step {s : UsedCache} (h : Ordered s.lastUse s.count s.cache) (op : CacheOp) :
    Ordered (s.step op).lastUse (s.step op).count (s.step op).cache := by
  cases op with
  | put inode offset data => exact h.putMemory (s.cache.key inode offset) data
  | get inode offset => exact h.get inode offset
  | invalidate inode => exact h.of_shrinks (s.cache.invalidate_shrinks inode)
  | invalidateRange inode offset len =>
    exact h.of_shrinks (s.cache.invalidateRange_shrinks inode offset len)
  | clear => exact h.of_shrinks s.cache.clear_shrinks

theorem new (blockSize : ℕ) (pos : 0 < blockSize) (memoryLimit : ℕ) (disk : Option DiskCache)
    {clock : ℕ → Instant} (hclock : StrictMono clock) (order : IterOrder MemItem) :
    Ordered (fun _ => 0) 0 (.new blockSize pos memoryLimit disk clock order) where
  ticks := hclock
  used _ _ hblock := by cases hblock
  counted _ _ hblock := by cases hblock
  order _ _ hblock := by cases hblock

theorem call (h : Ordered lastUse count c) (hcall : c.CallsEvictOne op t) :
    Ordered lastUse count t := by
  obtain ⟨c', key, data, hins, henters⟩ := hcall
  obtain ⟨-, hclock, htick, hmap⟩ := insertion_spec hins
  have hstart : Ordered lastUse count c' := by
    refine h.of_sub hclock htick ?_
    rw [hmap]
    exact fun _ _ hblock => hblock
  exact henters.invariant (fun _ h _ => h.evictRound) hstart

theorem evictOne (h : Ordered lastUse count c) (hne : c.memoryCache.entries ≠ []) :
    c.EvictsLeastRecent lastUse := by
  have hused : ∀ key, ∀ block ∈ AList.lookup key c.memoryCache, block.lastAccess < c.now :=
    fun key block hblock => h.used key block hblock c.tick (Nat.le_refl _)
  obtain ⟨key, block, hblock, hsize, hmap, hleast⟩ := evictOne_takes hused hne
  refine ⟨key, block, hblock, hsize, ?_, ?_⟩
  · intro k
    rw [hmap, Table.lookup_erase_if]
  · intro k hk
    obtain ⟨b, hb⟩ := Option.isSome_iff_exists.mp (AList.lookup_isSome.mpr hk)
    rw [hmap, Table.lookup_erase_if] at hb
    by_cases hkey : k = key
    · rw [if_pos hkey] at hb
      cases hb
    · rw [if_neg hkey] at hb
      exact h.order key block hblock k b hb (Ne.symm hkey) (hleast k b hb)

end Ordered

end DataCache

/-- In every run from a new cache under a clock that strictly increases, each call of `evict_one`
takes the block out of memory whose last `put` or hit is the oldest, and no other. -/
theorem eviction_least_recent (blockSize : ℕ) (pos : 0 < blockSize) (memoryLimit : ℕ)
    (disk : Option DiskCache) (clock : ℕ → Instant) (hclock : StrictMono clock)
    (order : IterOrder MemItem) (ops : List CacheOp) (op : CacheOp) (t : DataCache)
    (hcall : (run UsedCache.step (.start (.new blockSize pos memoryLimit disk clock order))
      ops).cache.CallsEvictOne op t) :
    t.EvictsLeastRecent (run UsedCache.step
      (.start (.new blockSize pos memoryLimit disk clock order)) ops).lastUse := by
  have hrun := @run_kept _ _ UsedCache.step
    (fun s => DataCache.Ordered s.lastUse s.count s.cache) (fun s op h => h.step op)
    (.start (.new blockSize pos memoryLimit disk clock order))
    (.new blockSize pos memoryLimit disk hclock order) ops
  obtain ⟨key, data, htest, -⟩ := hcall.step_eq
  exact (hrun.call hcall).evictOne htest.2

/-- Three blocks of four bytes where eight fit: the hit on the first block saves it. -/
theorem hit_block_stays :
    let s := run UsedCache.step (.start (.new 4 (by decide) 8 none id .storage))
      [.put 1 0 [0, 0, 0, 0], .put 1 4 [1, 1, 1, 1], .get 1 0]
    s.cache.EvictsLeastRecent s.lastUse ∧ s.lastUse ⟨1, 4⟩ = 1 ∧ s.lastUse ⟨1, 0⟩ = 2 ∧
      (AList.lookup ⟨1, 4⟩ (s.step (.put 1 8 [2, 2, 2, 2])).cache.memoryCache).isNone = true ∧
      (AList.lookup ⟨1, 0⟩ (s.step (.put 1 8 [2, 2, 2, 2])).cache.memoryCache).isSome = true :=
  ⟨eviction_least_recent 4 (by decide) 8 none id strictMono_id .storage
      [.put 1 0 [0, 0, 0, 0], .put 1 4 [1, 1, 1, 1], .get 1 0] (.put 1 8 [2, 2, 2, 2]) _
      ⟨_, _, _, rfl, .now (by decide)⟩,
    by decide, by decide, by decide, by decide⟩

end ObsFuse
