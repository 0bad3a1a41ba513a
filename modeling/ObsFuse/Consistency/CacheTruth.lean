import ObsFuse.Cache.BlockView
import ObsFuse.Lib.Runs

/-! # The data cache against the last writer of each block

A run of cache operations is followed by the map that keeps, for each block, the data of
the last `put` since the block was last invalidated. The cache is truthful while every
answer it can give is the one of this map. -/

namespace ObsFuse
open Lib

inductive CacheOp where
  | put (inode offset : ℕ) (data : Bytes)
  | get (inode offset : ℕ)
  | invalidate (inode : ℕ)
  | invalidateRange (inode offset len : ℕ)
  | clear
  deriving DecidableEq, Repr

def DataCache.step (c : DataCache) : CacheOp → DataCache
  | .put inode offset data => c.put inode offset data
  | .get inode offset => (c.get inode offset).2
  | .invalidate inode => c.invalidate inode
  | .invalidateRange inode offset len => c.invalidateRange inode offset len
  | .clear => c.clear

/-- The data of the last `put` to each block that no later operation invalidated. -/
abbrev LastPuts := BlockKey → Option Bytes

def LastPuts.step (blockSize : ℕ) (last : LastPuts) : CacheOp → LastPuts
  | .put inode offset data => fun key =>
    if key = .new inode offset blockSize then some data else last key
  | .get _ _ => last
  | .invalidate inode => fun key => if key.inode = inode then none else last key
  | .invalidateRange inode offset len => fun key =>
    if key.Intersects blockSize inode offset len then none else last key
  | .clear => fun _ => none

structure TrackedCache where
  cache : DataCache
  last : LastPuts

def TrackedCache.step (s : TrackedCache) (op : CacheOp) : TrackedCache :=
  ⟨s.cache.step op, s.last.step s.cache.blockSize op⟩

/-- Whatever `get` would return now is the data last put to the block. -/
def TrackedCache.Truthful (s : TrackedCache) : Prop :=
  ∀ inode offset data, (s.cache.get inode offset).1 = some data →
    s.last (.new inode offset s.cache.blockSize) = some data

/-- An `invalidate_range` that leaves no wrong answer behind: a block that the range meets
is removed or was not in memory, and the disk tier has no copy of it; of a removed block
that the range does not meet, the disk tier has no other data than the last put. -/
def TrackedCache.UncoversNothing (s : TrackedCache) : CacheOp → Prop
  | .invalidateRange inode offset len => ∀ block,
    let key := BlockKey.new inode block s.cache.blockSize
    if key.Intersects s.cache.blockSize inode offset len then
      s.cache.onDisk key = none ∧
        (s.cache.Removes inode offset len key ∨ AList.lookup key s.cache.memoryCache = none)
    else
      s.cache.Removes inode offset len key →
        ∀ data, s.cache.onDisk key = some data → s.last key = some data
  | _ => True

namespace TrackedCache

theorem truthful_iff (s : TrackedCache) :
    s.Truthful ↔ ∀ inode offset data,
      s.cache.visible (.new inode offset s.cache.blockSize) = some data →
        s.last (.new inode offset s.cache.blockSize) = some data := by
  simp only [Truthful, DataCache.get_fst, DataCache.key]

/-- A disk tier as it should be: each entry leads to its own file, and no file operation fails. -/
structure Sound (s : TrackedCache) : Prop where
  wellFormed : s.cache.WellFormed
  faithful : s.cache.Faithful

theorem step_kept {P : DiskCache → Prop} (hP : DiskCache.Kept P) {s : TrackedCache}
    (h : ∀ d ∈ s.cache.diskCache, P d) (op : CacheOp) :
    ∀ d ∈ (s.step op).cache.diskCache, P d := by
  cases op with
  | put inode offset data => exact DataCache.putMemory_kept hP h (s.cache.key inode offset) data
  | get inode offset => exact DataCache.get_kept hP h inode offset
  | invalidate inode => exact DataCache.invalidate_kept hP h inode
  | invalidateRange inode offset len => exact h
  | clear => exact DataCache.clear_kept hP h

theorem Sound.step {s : TrackedCache} (h : s.Sound) (op : CacheOp) : (s.step op).Sound :=
  ⟨step_kept DiskCache.wellFormed_kept h.wellFormed op,
    step_kept DiskCache.faithful_kept h.faithful op⟩

/-- The range operation: what it removes is answered from the disk tier afterwards. -/
theorem step_invalidateRange_truthful_iff {s : TrackedCache} (hf : s.cache.Faithful)
    (h : ∀ inode offset data,
      s.cache.visible (.new inode offset s.cache.blockSize) = some data →
        s.last (.new inode offset s.cache.blockSize) = some data) (inode offset len : ℕ) :
    (s.step (.invalidateRange inode offset len)).Truthful ↔
      s.UncoversNothing (.invalidateRange inode offset len) := by
  have hvis : ∀ k, (s.step (.invalidateRange inode offset len)).cache.visible k =
      if s.cache.Removes inode offset len k then s.cache.onDisk k else s.cache.visible k := by
    intro k
    rw [← DataCache.fromDisk_faithful hf]
    exact s.cache.invalidateRange_visible inode offset len k
  have hlast : ∀ k, (s.step (.invalidateRange inode offset len)).last k =
      if k.Intersects s.cache.blockSize inode offset len then none else s.last k := fun _ => rfl
  have hsize : (s.step (.invalidateRange inode offset len)).cache.blockSize =
      s.cache.blockSize := rfl
  rw [truthful_iff, hsize]
  simp only [hvis, hlast]
  constructor
  · intro h' o
    have hkey := h' inode o
    dsimp only
    by_cases hmeet : (BlockKey.new inode o s.cache.blockSize).Intersects s.cache.blockSize
        inode offset len
    · simp only [if_pos hmeet, reduceCtorEq, imp_false] at hkey ⊢
      by_cases hrem : s.cache.Removes inode offset len (.new inode o s.cache.blockSize)
      · rw [if_pos hrem] at hkey
        exact ⟨Option.eq_none_iff_forall_ne_some.mpr hkey, .inl hrem⟩
      · rw [if_neg hrem] at hkey
        cases hm : AList.lookup (.new inode o s.cache.blockSize) s.cache.memoryCache with
        | some block =>
          rw [DataCache.visible_of_memory hm] at hkey
          exact absurd rfl (hkey block.data)
        | none =>
          rw [DataCache.visible_of_not_memory hm, DataCache.fromDisk_faithful hf] at hkey
          exact ⟨Option.eq_none_iff_forall_ne_some.mpr hkey, .inr rfl⟩
    · rw [if_neg hmeet]
      intro hrem data hdisk
      have := hkey data (by rw [if_pos hrem, hdisk])
      rwa [if_neg hmeet] at this
  · intro hok i o data hd
    by_cases hi : i = inode
    · subst hi
      have hblock := hok o
      dsimp only at hblock
      by_cases hmeet : (BlockKey.new i o s.cache.blockSize).Intersects s.cache.blockSize
          i offset len
      · rw [if_pos hmeet] at hblock
        obtain ⟨hdisk, hrem | hm⟩ := hblock
        · rw [if_pos hrem, hdisk] at hd
          cases hd
        · rw [DataCache.visible_of_not_memory hm, DataCache.fromDisk_faithful hf, ite_self,
            hdisk] at hd
          cases hd
      · rw [if_neg hmeet] at hblock ⊢
        by_cases hrem : s.cache.Removes i offset len (.new i o s.cache.blockSize)
        · rw [if_pos hrem] at hd
          exact hblock hrem data hd
        · rw [if_neg hrem] at hd
          exact h i o data hd
    · have hmeet : ¬(BlockKey.new i o s.cache.blockSize).Intersects s.cache.blockSize inode
          offset len := fun hm => hi hm.1
      have hrem : ¬s.cache.Removes inode offset len (.new i o s.cache.blockSize) :=
        fun hr => hi hr.1
      rw [if_neg hrem] at hd
      rw [if_neg hmeet]
      exact h i o data hd

/-- Where the cache is truthful, an operation keeps it so exactly when it uncovers nothing. -/
theorem step_truthful_iff {s : TrackedCache} (hs : s.Sound) (h : s.Truthful) (op : CacheOp) :
    (s.step op).Truthful ↔ s.UncoversNothing op := by
  obtain ⟨hw, hfaith⟩ := hs
  rw [truthful_iff] at h ⊢
  cases op with
  | put inode offset data =>
    have hput := DataCache.put_puts hw hfaith inode offset data
    refine iff_of_true (fun i o d hd => ?_) trivial
    simp only [step, DataCache.step, LastPuts.step, hput.blockSize] at hd ⊢
    by_cases hk : BlockKey.new i o s.cache.blockSize = .new inode offset s.cache.blockSize
    · rw [hk] at hd
      rw [if_pos hk, ← hd]
      exact hput.stored.symm
    · rw [if_neg hk]
      exact h i o d (hput.others _ d hk hd)
  | get inode offset =>
    have hf := DataCache.get_forgets hw hfaith inode offset
    refine iff_of_true (fun i o d hd => ?_) trivial
    simp only [step, DataCache.step, LastPuts.step, hf.blockSize] at hd ⊢
    exact h i o d (hf.visible _ d hd)
  | invalidate inode =>
    obtain ⟨hf, hgone⟩ := DataCache.invalidate_spec hw inode
    refine iff_of_true (fun i o d hd => ?_) trivial
    simp only [step, DataCache.step, LastPuts.step, hf.blockSize] at hd ⊢
    by_cases hi : (BlockKey.new i o s.cache.blockSize).inode = inode
    · rw [hgone _ hi] at hd
      cases hd
    · rw [if_neg hi]
      exact h i o d (hf.visible _ d hd)
  | clear =>
    refine iff_of_true (fun i o d hd => ?_) trivial
    simp only [step, DataCache.step, DataCache.clear_visible] at hd
    cases hd
  | invalidateRange inode offset len =>
    rw [← truthful_iff]
    exact step_invalidateRange_truthful_iff hfaith h inode offset len

end TrackedCache

/-! ### Runs from an empty cache -/

/-- An empty cache, with or without a disk tier, whose file operations succeed. -/
def TrackedCache.start (blockSize : ℕ) (pos : 0 < blockSize) (memoryLimit : ℕ)
    (disk : Option (Str × ℕ × IterOrder DiskItem)) (clock : ℕ → Instant)
    (order : IterOrder MemItem) : TrackedCache :=
  ⟨.new blockSize pos memoryLimit (disk.map fun d => .new d.1 d.2.1 d.2.2 fun _ => none) clock
    order, fun _ => none⟩

theorem TrackedCache.start_sound (blockSize : ℕ) (pos : 0 < blockSize) (memoryLimit : ℕ)
    (disk : Option (Str × ℕ × IterOrder DiskItem)) (clock : ℕ → Instant)
    (order : IterOrder MemItem) :
    (start blockSize pos memoryLimit disk clock order).Sound := by
  constructor
  · intro d hd
    obtain ⟨_, -, rfl⟩ := Option.map_eq_some_iff.mp hd
    intro k e he
    simp [DiskCache.new] at he
  · intro d hd
    obtain ⟨_, -, rfl⟩ := Option.map_eq_some_iff.mp hd
    exact fun _ => rfl

theorem TrackedCache.start_visible (blockSize : ℕ) (pos : 0 < blockSize) (memoryLimit : ℕ)
    (disk : Option (Str × ℕ × IterOrder DiskItem)) (clock : ℕ → Instant)
    (order : IterOrder MemItem) (key : BlockKey) :
    (start blockSize pos memoryLimit disk clock order).cache.visible key = none := by
  have hm : AList.lookup key (start blockSize pos memoryLimit disk clock order).cache.memoryCache =
      none := AList.lookup_empty key
  rw [DataCache.visible_of_not_memory hm]
  cases disk <;> rfl

theorem TrackedCache.start_truthful (blockSize : ℕ) (pos : 0 < blockSize) (memoryLimit : ℕ)
    (disk : Option (Str × ℕ × IterOrder DiskItem)) (clock : ℕ → Instant)
    (order : IterOrder MemItem) :
    (start blockSize pos memoryLimit disk clock order).Truthful := by
  rw [truthful_iff]
  intro i o data hd
  rw [start_visible] at hd
  cases hd

/-- In a run of any cache from empty, every `get` at every point can only answer with the
last `put` of the block that was not invalidated since, exactly when no `invalidate_range`
of the run uncovers a disk copy. -/
theorem every_answer_last_put_iff (blockSize : ℕ) (pos : 0 < blockSize) (memoryLimit : ℕ)
    (disk : Option (Str × ℕ × IterOrder DiskItem)) (clock : ℕ → Instant)
    (order : IterOrder MemItem) (ops : List CacheOp) :
    (∀ n, (run TrackedCache.step
        (.start blockSize pos memoryLimit disk clock order) (ops.take n)).Truthful) ↔
      Along TrackedCache.step TrackedCache.UncoversNothing
        (.start blockSize pos memoryLimit disk clock order) ops :=
  forall_states_iff_along TrackedCache.Truthful (fun _ op h => h.step op)
    (fun _ op hs h => TrackedCache.step_truthful_iff hs h op)
    (TrackedCache.start_sound blockSize pos memoryLimit disk clock order)
    (TrackedCache.start_truthful blockSize pos memoryLimit disk clock order)

/-- Blocks that fit in memory: an `invalidate_range` reaches every copy there is. -/
theorem invalidated_memory_block_not_answered :
    0 < 4 ∧ ∀ n, (run TrackedCache.step
      (.start 4 (by decide) 100 (some (['d'], 100, .storage)) (fun n => n) .storage)
      ([.put 1 0 [7], .get 1 0, .invalidateRange 1 0 4, .put 1 4 [8]].take n)).Truthful := by
  refine ⟨by decide, (every_answer_last_put_iff 4 (by decide) 100 (some (['d'], 100, .storage))
    (fun n => n) .storage [.put 1 0 [7], .get 1 0, .invalidateRange 1 0 4, .put 1 4 [8]]).mpr ?_⟩
  refine ⟨trivial, trivial, ?_, trivial, trivial⟩
  intro block
  dsimp only
  split
  · next hmeet => exact ⟨rfl, .inl (DataCache.removes_of_intersects (by decide) hmeet)⟩
  · intro _ data hdata
    cases hdata

/-- With room for one byte in memory, the second `put` moves the first block to the disk
tier; invalidating the first block's range does not reach it there. -/
theorem invalidated_block_answered_from_disk :
    ((run TrackedCache.step
          (.start 4 (by decide) 1 (some (['d'], 100, .storage)) (fun n => n) .storage)
          [.put 1 0 [7], .put 1 4 [8], .invalidateRange 1 0 4]).cache.get 1 0).1 = some [7] ∧
      (run TrackedCache.step
          (.start 4 (by decide) 1 (some (['d'], 100, .storage)) (fun n => n) .storage)
          [.put 1 0 [7], .put 1 4 [8], .invalidateRange 1 0 4]).last (.new 1 0 4) = none := by
  decide

end ObsFuse
