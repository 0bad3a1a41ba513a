import ObsFuse.Cache.Data
import ObsFuse.Lib.Loops
import ObsFuse.Lib.Weight

/-! # The bytes of the memory tier

`heldBytes` is the total length of the blocks in memory, which `memory_usage` is meant to
be. `Drift d` says that the counter is ahead of it by `d`; the lemmas say what each
operation does to the drift. -/

namespace ObsFuse
open Lib

namespace DataCache

def heldBytes (c : DataCache) : ℕ :=
  Table.weight (fun b : CachedBlock => b.data.length) c.memoryCache

/-- The bytes of the block in memory under a key. -/
def bytesAt (c : DataCache) (key : BlockKey) : ℕ :=
  Table.weightAt (fun b : CachedBlock => b.data.length) c.memoryCache key

def Drift (d : ℕ) (c : DataCache) : Prop := c.memoryUsage = c.heldBytes + d

/-! ### The eviction loop -/

/-- The test of the loop of `put_memory`. -/
def NoRoom (size : ℕ) (c : DataCache) : Prop :=
  c.memoryLimit < c.memoryUsage + size ∧ c.memoryCache.entries ≠ []

instance (size : ℕ) : DecidablePred (NoRoom size) := fun _ => inferInstanceAs (Decidable (_ ∧ _))

/-- One round of the loop, and whether it goes on. -/
def evictRound (c : DataCache) : Bool × DataCache :=
  match c.evictOne with
  | (some evicted, c) => (true, { c with memoryUsage := c.memoryUsage - evicted })
  | (none, c) => (false, c)

/-- What `put_memory` does once it has made room. -/
def store (c : DataCache) (key : BlockKey) (data : Bytes) : DataCache :=
  let c := { c with memoryUsage := c.memoryUsage + data.length }
  { c.ticked with memoryCache := c.memoryCache.insert key (.new c.now data) }

theorem evictLoop_eq_loopFor (size k : ℕ) (c : DataCache) :
    evictLoop size k c = (loopFor (NoRoom size) evictRound k c).2 := by
  induction k generalizing c with
  | zero => rfl
  | succ k ih =>
    unfold evictLoop loopFor
    by_cases htest : NoRoom size c
    · rw [if_pos htest]
      have hcond : c.memoryLimit < c.memoryUsage + size ∧ c.memoryCache.entries ≠ [] := htest
      rw [if_pos hcond]
      unfold evictRound
      obtain ⟨_ | evicted, c'⟩ := c.evictOne
      · rfl
      · exact ih _
    · rw [if_neg htest]
      have hcond : ¬(c.memoryLimit < c.memoryUsage + size ∧ c.memoryCache.entries ≠ []) := htest
      rw [if_neg hcond]

/-- An eviction takes one block out of the map, or none, and leaves the counter alone. -/
theorem evictOne_cases (c : DataCache) :
    (c.evictOne.1 = none ∧ c.evictOne.2.memoryCache = c.memoryCache ∨
      ∃ key block, AList.lookup key c.memoryCache = some block ∧
        c.evictOne.1 = some block.data.length ∧
        c.evictOne.2.memoryCache = c.memoryCache.erase key) ∧
      c.evictOne.2.memoryUsage = c.memoryUsage ∧ c.evictOne.2.memoryLimit = c.memoryLimit ∧
      c.evictOne.2.clock = c.clock ∧ c.tick ≤ c.evictOne.2.tick := by
  simp only [evictOne]
  split
  · exact ⟨.inl ⟨rfl, rfl⟩, rfl, rfl, rfl, Nat.le_succ _⟩
  · next key _ =>
    split
    · exact ⟨.inl ⟨rfl, rfl⟩, rfl, rfl, rfl, Nat.le_succ _⟩
    · next block hblock =>
      split
      · exact ⟨.inr ⟨key, block, hblock, rfl, rfl⟩, rfl, rfl, rfl, by
          dsimp only [ticked]
          omega⟩
      · exact ⟨.inr ⟨key, block, hblock, rfl, rfl⟩, rfl, rfl, rfl, Nat.le_succ _⟩

theorem evictOne_disk (c : DataCache) {d' : DiskCache} (h : d' ∈ c.evictOne.2.diskCache) :
    ∃ d ∈ c.diskCache, d' = d ∨ ∃ now key block, AList.lookup key c.memoryCache = some block ∧
      d' = d.put now key block.data := by
  simp only [evictOne] at h
  split at h
  · exact ⟨d', h, .inl rfl⟩
  · next key _ =>
    split at h
    · exact ⟨d', h, .inl rfl⟩
    · next block hblock =>
      split at h
      · next disk hdisk =>
        cases h
        exact ⟨disk, hdisk, .inr ⟨_, key, block, hblock, rfl⟩⟩
      · exact ⟨d', h, .inl rfl⟩

/-- A round that goes on has taken one block out of the map and its length off the counter. -/
theorem evictRound_cases (c : DataCache) :
    c.evictRound.2.memoryLimit = c.memoryLimit ∧
      (c.evictRound.1 = false ∧ c.evictRound.2.memoryCache = c.memoryCache ∧
          c.evictRound.2.memoryUsage = c.memoryUsage ∨
        ∃ key block, AList.lookup key c.memoryCache = some block ∧ c.evictRound.1 = true ∧
          c.evictRound.2.memoryCache = c.memoryCache.erase key ∧
          c.evictRound.2.memoryUsage = c.memoryUsage - block.data.length) := by
  obtain ⟨hcases, husage, hlimit, -, -⟩ := c.evictOne_cases
  unfold evictRound
  generalize c.evictOne = r at hcases husage hlimit
  obtain ⟨evicted, c'⟩ := r
  rcases hcases with ⟨hnone, hmap⟩ | ⟨key, block, hblock, hsome, hmap⟩
  · cases hnone
    exact ⟨hlimit, .inl ⟨rfl, hmap, husage⟩⟩
  · cases hsome
    refine ⟨hlimit, .inr ⟨key, block, hblock, rfl, hmap, ?_⟩⟩
    show c'.memoryUsage - block.data.length = c.memoryUsage - block.data.length
    rw [husage]

theorem evictRound_frame (c : DataCache) :
    c.evictRound.2.clock = c.clock ∧ c.tick ≤ c.evictRound.2.tick ∧
      c.evictRound.2.diskCache = c.evictOne.2.diskCache := by
  obtain ⟨-, -, -, hclock, htick⟩ := c.evictOne_cases
  unfold evictRound
  generalize c.evictOne = r at hclock htick ⊢
  obtain ⟨_ | evicted, c'⟩ := r
  · exact ⟨hclock, htick, rfl⟩
  · exact ⟨hclock, htick, rfl⟩

theorem evictRound_lookup (c : DataCache) {key : BlockKey} {block : CachedBlock}
    (h : AList.lookup key c.evictRound.2.memoryCache = some block) :
    AList.lookup key c.memoryCache = some block := by
  obtain ⟨-, ⟨-, hmap, -⟩ | ⟨key', block', -, -, hmap, -⟩⟩ := c.evictRound_cases
  · rw [hmap] at h
    exact h
  · rw [hmap] at h
    exact Table.lookup_of_erase h

theorem evictRound_length {size : ℕ} (c c' : DataCache) (_ : NoRoom size c)
    (h : c.evictRound = (true, c')) :
    c'.memoryCache.entries.length < c.memoryCache.entries.length := by
  obtain ⟨-, ⟨hfalse, -⟩ | ⟨key, block, hblock, -, hmap, -⟩⟩ := c.evictRound_cases
  · rw [h] at hfalse
    cases hfalse
  · rw [h] at hmap
    dsimp only at hmap
    rw [hmap]
    exact c.memoryCache.length_erase_lt (c.memoryCache.mem_entries_of_lookup hblock)

/-- The cache once it has made room for `size` bytes. -/
def roomFor (c : DataCache) (size : ℕ) : DataCache :=
  evictLoop size (c.memoryCache.entries.length + 1) c

theorem putMemory_eq (c : DataCache) (key : BlockKey) (data : Bytes) :
    c.putMemory key data = (c.roomFor data.length).store key data := rfl

theorem roomFor_loop (c : DataCache) (size : ℕ) :
    ∃ on, Loop (NoRoom size) evictRound c (on, c.roomFor size) := by
  refine ⟨(loopFor (NoRoom size) evictRound (c.memoryCache.entries.length + 1) c).1, ?_⟩
  unfold roomFor
  rw [evictLoop_eq_loopFor]
  exact loop_loopFor (fun c => c.memoryCache.entries.length) evictRound_length
    (Nat.lt_succ_self _)

/-! ### The drift of the counter -/

variable {c : DataCache} {d : ℕ}

theorem evictRound_drift {size : ℕ} (c : DataCache) (h : Drift d c) (_ : NoRoom size c) :
    Drift d c.evictRound.2 := by
  unfold Drift heldBytes at h ⊢
  obtain ⟨-, ⟨-, hmap, husage⟩ | ⟨key, block, hblock, -, hmap, husage⟩⟩ := c.evictRound_cases
  · rw [hmap, husage, h]
  · have herase := Table.weight_erase (fun b : CachedBlock => b.data.length) c.memoryCache key
    rw [Table.weightAt_of_lookup _ _ _ hblock] at herase
    rw [hmap, husage, h]
    omega

/-- Storing a block leaves what it replaces in the counter. -/
theorem store_drift (h : Drift d c) (key : BlockKey) (data : Bytes) :
    Drift (d + c.bytesAt key) (c.store key data) := by
  have hinsert := Table.weight_insert (fun b : CachedBlock => b.data.length) c.memoryCache key
    (.new c.now data)
  unfold Drift heldBytes at h ⊢
  unfold bytesAt
  show c.memoryUsage + data.length =
    Table.weight (fun b : CachedBlock => b.data.length)
      (c.memoryCache.insert key (.new c.now data)) + _
  have hlen : (CachedBlock.new c.now data).data.length = data.length := rfl
  omega

theorem roomFor_lookup (c : DataCache) (size : ℕ) (key : BlockKey) :
    AList.lookup key (c.roomFor size).memoryCache = none ∨
      AList.lookup key (c.roomFor size).memoryCache = AList.lookup key c.memoryCache := by
  obtain ⟨on, hloop⟩ := c.roomFor_loop size
  refine @Loop.invariant _ _ _ _ _ (fun c' => AList.lookup key c'.memoryCache = none ∨
    AList.lookup key c'.memoryCache = AList.lookup key c.memoryCache) ?_ hloop (.inr rfl)
  intro c' hsub _
  obtain ⟨-, ⟨-, hmap, -⟩ | ⟨key', block, -, -, hmap, -⟩⟩ := c'.evictRound_cases
  · rw [hmap]
    exact hsub
  · rw [hmap]
    rcases Table.lookup_erase_or c'.memoryCache key' key with hnone | hsame
    · exact .inl hnone
    · rw [hsame]
      exact hsub

theorem removeBlocks_weight (blockSize inode b n : ℕ) (t : Table BlockKey CachedBlock) :
    Table.weight (fun b : CachedBlock => b.data.length) (removeBlocks blockSize inode b n t).2 +
      (removeBlocks blockSize inode b n t).1 =
        Table.weight (fun b : CachedBlock => b.data.length) t := by
  induction n generalizing b t with
  | zero => rfl
  | succ n ih =>
    have hrest := ih (b + 1) (t.erase ⟨inode, b * blockSize⟩)
    have herase := Table.weight_erase (fun b : CachedBlock => b.data.length) t
      ⟨inode, b * blockSize⟩
    unfold Table.weightAt at herase
    simp only [removeBlocks]
    omega

theorem putMemory_drift (h : Drift d c) (key : BlockKey) (data : Bytes) :
    Drift (d + (c.roomFor data.length).bytesAt key) (c.putMemory key data) := by
  obtain ⟨on, hloop⟩ := c.roomFor_loop data.length
  have hroom : Drift d (c.roomFor data.length) :=
    hloop.invariant (fun c h htest => evictRound_drift c h htest) h
  exact store_drift hroom key data

end DataCache

end ObsFuse
