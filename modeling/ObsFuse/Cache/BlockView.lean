import ObsFuse.Cache.DiskView
import ObsFuse.Cache.MemoryView
import ObsFuse.Lib.Blocks

/-! # What the two tiers of the data cache answer

`visible` is the answer of the cache for a block, whichever tier gives it. The lemmas say
how each operation changes these answers; evictions and promotions only ever forget, as long as
no file operation fails. -/

namespace ObsFuse
open Lib

/-- The block shares a byte with the range. -/
def BlockKey.Intersects (key : BlockKey) (blockSize inode offset len : ℕ) : Prop :=
  key.inode = inode ∧ 0 < len ∧ key.offset < offset + len ∧ offset < key.offset + blockSize

instance (key : BlockKey) (blockSize inode offset len : ℕ) :
    Decidable (key.Intersects blockSize inode offset len) :=
  inferInstanceAs (Decidable (_ ∧ _))

namespace DataCache

theorem key_congr {c c' : DataCache} (h : c'.blockSize = c.blockSize) (inode offset : ℕ) :
    c'.key inode offset = c.key inode offset := by
  rw [key, key, h]

/-- What the disk tier holds for a block. -/
def onDisk (c : DataCache) (key : BlockKey) : Option Bytes := c.diskCache.bind (·.content key)

/-- What the disk tier answers for a block, if it is asked now. -/
def fromDisk (c : DataCache) (key : BlockKey) : Option Bytes := c.diskCache.bind (·.answer key)

/-- What the cache answers for a block: the memory tier first, then the disk tier. -/
def visible (c : DataCache) (key : BlockKey) : Option Bytes :=
  match AList.lookup key c.memoryCache with
  | some block => some block.data
  | none => c.fromDisk key

def WellFormed (c : DataCache) : Prop := ∀ d ∈ c.diskCache, d.WellFormed

/-- No file operation fails. -/
def Faithful (c : DataCache) : Prop := ∀ d ∈ c.diskCache, d.Faithful

theorem onDisk_of_fromDisk {c : DataCache} {key : BlockKey} {data : Bytes}
    (h : c.fromDisk key = some data) : c.onDisk key = some data := by
  obtain ⟨disk, hdisk, hanswer⟩ := Option.bind_eq_some_iff.mp h
  exact Option.bind_eq_some_iff.mpr ⟨disk, hdisk, DiskCache.answer_content hanswer⟩

theorem fromDisk_faithful {c : DataCache} (h : c.Faithful) (key : BlockKey) :
    c.fromDisk key = c.onDisk key := by
  unfold fromDisk onDisk
  cases hd : c.diskCache with
  | none => rfl
  | some disk =>
    have hfault : disk.fault = none := h disk hd _
    rw [Option.bind_some, Option.bind_some, DiskCache.answer, hfault]

/-! ### What holds of the disk tier -/

section
variable {P : DiskCache → Prop} {c : DataCache}

theorem evictOne_kept (hP : DiskCache.Kept P) (h : ∀ d ∈ c.diskCache, P d) :
    ∀ d ∈ c.evictOne.2.diskCache, P d := by
  intro d' hd'
  obtain ⟨d, hd, rfl | ⟨now, key, block, -, rfl⟩⟩ := c.evictOne_disk hd'
  · exact h d' hd
  · exact hP.put d now key block.data (h d hd)

theorem evictLoop_kept (hP : DiskCache.Kept P) (h : ∀ d ∈ c.diskCache, P d) (size k : ℕ) :
    ∀ d ∈ (evictLoop size k c).diskCache, P d := by
  induction k generalizing c with
  | zero => exact h
  | succ k ih =>
    have hone := evictOne_kept hP h
    unfold evictLoop
    split
    · generalize c.evictOne = r at hone
      obtain ⟨_ | evicted, c'⟩ := r
      · exact hone
      · exact ih hone
    · exact h

theorem putMemory_kept (hP : DiskCache.Kept P) (h : ∀ d ∈ c.diskCache, P d) (key : BlockKey)
    (data : Bytes) : ∀ d ∈ (c.putMemory key data).diskCache, P d :=
  evictLoop_kept hP h data.length (c.memoryCache.entries.length + 1)

theorem get_kept (hP : DiskCache.Kept P) (h : ∀ d ∈ c.diskCache, P d) (inode offset : ℕ) :
    ∀ d ∈ (c.get inode offset).2.diskCache, P d := by
  unfold get
  dsimp only
  split
  · exact h
  · split
    · next disk hdisk =>
      have hread := hP.get disk c.now (c.key inode offset) (h disk hdisk)
      generalize disk.get c.now (c.key inode offset) = r at hread
      obtain ⟨_ | data, disk'⟩ := r
      · rintro d ⟨⟩
        exact hread
      · apply putMemory_kept hP
        rintro d ⟨⟩
        exact hread
    · exact h

theorem invalidate_kept (hP : DiskCache.Kept P) (h : ∀ d ∈ c.diskCache, P d) (inode : ℕ) :
    ∀ d ∈ (c.invalidate inode).diskCache, P d := by
  intro d hd
  obtain ⟨disk, hdisk, rfl⟩ := Option.map_eq_some_iff.mp hd
  exact hP.invalidate disk inode (h disk hdisk)

theorem clear_kept (hP : DiskCache.Kept P) (h : ∀ d ∈ c.diskCache, P d) :
    ∀ d ∈ c.clear.diskCache, P d := by
  intro d hd
  obtain ⟨disk, hdisk, rfl⟩ := Option.map_eq_some_iff.mp hd
  exact hP.clear disk (h disk hdisk)

end

/-- The cache `c'` answers nothing that `c` does not answer. -/
structure Forgets (c c' : DataCache) : Prop where
  blockSize : c'.blockSize = c.blockSize
  visible : ∀ key data, c'.visible key = some data → c.visible key = some data

theorem Forgets.refl (c : DataCache) : c.Forgets c := ⟨rfl, fun _ _ => id⟩

theorem Forgets.trans {c c' c'' : DataCache} (h : c.Forgets c') (h' : c'.Forgets c'') :
    c.Forgets c'' :=
  ⟨h'.blockSize.trans h.blockSize, fun k data hk => h.visible k data (h'.visible k data hk)⟩

theorem visible_of_memory {c : DataCache} {key : BlockKey} {block : CachedBlock}
    (h : AList.lookup key c.memoryCache = some block) : c.visible key = some block.data := by
  simp [visible, h]

theorem visible_of_not_memory {c : DataCache} {key : BlockKey}
    (h : AList.lookup key c.memoryCache = none) : c.visible key = c.fromDisk key := by
  simp [visible, h]

/-- If no file operation fails, the disk tier holds of an evicted block what the memory tier
held. -/
theorem evictOne_onDisk {c : DataCache} (hw : c.WellFormed) (hf : c.Faithful) :
    (c.evictOne.2.memoryCache = c.memoryCache ∧ c.evictOne.2.diskCache = c.diskCache) ∨
      ∃ key block, AList.lookup key c.memoryCache = some block ∧
        c.evictOne.2.memoryCache = c.memoryCache.erase key ∧
        ∀ k data, c.evictOne.2.onDisk k = some data →
          if k = key then data = block.data else c.onDisk k = some data := by
  simp only [evictOne]
  split
  · exact .inl ⟨rfl, rfl⟩
  · next key _ =>
    split
    · exact .inl ⟨rfl, rfl⟩
    · next block hblock =>
      refine .inr ⟨key, block, hblock, ?_⟩
      split
      · next disk hdisk =>
        refine ⟨rfl, fun k data hk => ?_⟩
        split
        · next hkey =>
          rw [hkey] at hk
          exact DiskCache.put_faithful (hw disk hdisk) (hf disk hdisk) _ hk
        · next hkey =>
          rcases (DiskCache.put_spec (hw disk hdisk) _ key block.data).2 k data hk with
            ⟨hsame, -⟩ | hold
          · exact absurd hsame hkey
          · exact Option.bind_eq_some_iff.mpr ⟨disk, hdisk, hold⟩
      · next hdisk =>
        refine ⟨rfl, fun k data hk => ?_⟩
        have hnone : c.diskCache = none := hdisk
        simp [onDisk, ticked, hnone] at hk

theorem evictOne_blockSize (c : DataCache) : c.evictOne.2.blockSize = c.blockSize := by
  simp only [evictOne]
  split
  · rfl
  · split
    · rfl
    · split <;> rfl

theorem evictOne_forgets {c : DataCache} (hw : c.WellFormed) (hf : c.Faithful) :
    c.Forgets c.evictOne.2 := by
  have hf' : c.evictOne.2.Faithful := evictOne_kept DiskCache.faithful_kept hf
  refine ⟨c.evictOne_blockSize, fun k data hk => ?_⟩
  rcases evictOne_onDisk hw hf with ⟨hm, hd⟩ | ⟨key, block, hblock, hm, hd⟩
  · simp only [visible, fromDisk, hm, hd] at hk ⊢
    exact hk
  · simp only [visible, fromDisk_faithful hf, fromDisk_faithful hf', hm,
      Table.lookup_erase_if] at hk ⊢
    by_cases hkey : k = key
    · subst hkey
      rw [if_pos rfl] at hk
      have hdisk := hd k data hk
      rw [if_pos rfl] at hdisk
      rw [hblock, hdisk]
    · rw [if_neg hkey] at hk
      cases hmem : AList.lookup k c.memoryCache with
      | some b =>
        rw [hmem] at hk
        exact hk
      | none =>
        rw [hmem] at hk
        have hdisk := hd k data hk
        rwa [if_neg hkey] at hdisk

theorem evictLoop_forgets {c : DataCache} (hw : c.WellFormed) (hf : c.Faithful) (size k : ℕ) :
    c.Forgets (evictLoop size k c) := by
  induction k generalizing c with
  | zero => exact .refl c
  | succ k ih =>
    have hone := evictOne_forgets hw hf
    have hwell := evictLoop_kept DiskCache.wellFormed_kept hw size 1
    have hfaith := evictLoop_kept DiskCache.faithful_kept hf size 1
    unfold evictLoop at hwell hfaith ⊢
    split
    · next htest =>
      rw [if_pos htest] at hwell hfaith
      generalize c.evictOne = r at hone hwell hfaith
      obtain ⟨_ | evicted, c'⟩ := r
      · exact hone
      · have hused : c'.Forgets { c' with memoryUsage := c'.memoryUsage - evicted } :=
          ⟨rfl, fun _ _ => id⟩
        exact (hone.trans hused).trans (ih hwell hfaith)
    · exact .refl c

theorem evictLoop_blockSize (c : DataCache) (size k : ℕ) :
    (evictLoop size k c).blockSize = c.blockSize := by
  induction k generalizing c with
  | zero => rfl
  | succ k ih =>
    unfold evictLoop
    split
    · have hone := c.evictOne_blockSize
      generalize c.evictOne = r at hone
      obtain ⟨_ | evicted, c'⟩ := r
      · exact hone
      · exact (ih _).trans hone
    · rfl

theorem putMemory_blockSize (c : DataCache) (key : BlockKey) (data : Bytes) :
    (c.putMemory key data).blockSize = c.blockSize :=
  evictLoop_blockSize c data.length (c.memoryCache.entries.length + 1)

theorem putMemory_stored (c : DataCache) (key : BlockKey) (data : Bytes) :
    (c.putMemory key data).visible key = some data := by
  rw [visible, putMemory]
  dsimp only
  rw [AList.lookup_insert]
  rfl

/-- Insertion makes the block visible with the new data and forgets at most. -/
structure Puts (c c' : DataCache) (key : BlockKey) (data : Bytes) : Prop where
  blockSize : c'.blockSize = c.blockSize
  stored : c'.visible key = some data
  others : ∀ k d, k ≠ key → c'.visible k = some d → c.visible k = some d

theorem putMemory_puts {c : DataCache} (hw : c.WellFormed) (hf : c.Faithful) (key : BlockKey)
    (data : Bytes) : c.Puts (c.putMemory key data) key data := by
  refine ⟨c.putMemory_blockSize key data, c.putMemory_stored key data, fun k d hk hd => ?_⟩
  have hloop := evictLoop_forgets hw hf data.length (c.memoryCache.entries.length + 1)
  apply hloop.visible k d
  rw [visible, putMemory] at hd
  dsimp only at hd
  rw [Table.lookup_insert_if, if_neg hk] at hd
  exact hd

theorem put_puts {c : DataCache} (hw : c.WellFormed) (hf : c.Faithful) (inode offset : ℕ)
    (data : Bytes) : c.Puts (c.put inode offset data) (c.key inode offset) data :=
  putMemory_puts hw hf _ data

theorem get_memory {c : DataCache} {inode offset : ℕ} {block : CachedBlock}
    (h : AList.lookup (c.key inode offset) c.memoryCache = some block) :
    c.get inode offset =
      (some block.data, { c.ticked with
        memoryCache := c.memoryCache.insert (c.key inode offset) (block.touch c.now) }) := by
  simp only [get, h]

theorem get_disk {c : DataCache} {inode offset : ℕ} {disk : DiskCache}
    (h : AList.lookup (c.key inode offset) c.memoryCache = none) (hd : c.diskCache = some disk) :
    c.get inode offset =
      match disk.answer (c.key inode offset) with
      | some data => (some data,
          ({ c.ticked with diskCache := some (disk.get c.now (c.key inode offset)).2 } :
            DataCache).putMemory (c.key inode offset) data)
      | none => (none,
          { c.ticked with diskCache := some (disk.get c.now (c.key inode offset)).2 }) := by
  rw [← disk.get_answer c.now]
  simp only [get, h, hd]
  generalize disk.get c.now (c.key inode offset) = r
  obtain ⟨_ | data, disk'⟩ := r <;> rfl

theorem get_miss {c : DataCache} {inode offset : ℕ}
    (h : AList.lookup (c.key inode offset) c.memoryCache = none) (hd : c.diskCache = none) :
    c.get inode offset = (none, c) := by
  simp only [get, h, hd]

theorem get_blockSize (c : DataCache) (inode offset : ℕ) :
    (c.get inode offset).2.blockSize = c.blockSize := by
  cases hm : AList.lookup (c.key inode offset) c.memoryCache with
  | some block => rw [get_memory hm]; rfl
  | none =>
    cases hd : c.diskCache with
    | none => rw [get_miss hm hd]
    | some disk =>
      rw [get_disk hm hd]
      cases disk.answer (c.key inode offset) with
      | none => rfl
      | some data => exact putMemory_blockSize _ _ data

theorem get_fst (c : DataCache) (inode offset : ℕ) :
    (c.get inode offset).1 = c.visible (c.key inode offset) := by
  cases hm : AList.lookup (c.key inode offset) c.memoryCache with
  | some block => rw [get_memory hm, visible_of_memory hm]
  | none =>
    rw [visible_of_not_memory hm, fromDisk]
    cases hd : c.diskCache with
    | none => rw [get_miss hm hd]; rfl
    | some disk =>
      rw [get_disk hm hd, Option.bind_some]
      cases disk.answer (c.key inode offset) <;> rfl

theorem get_forgets {c : DataCache} (hw : c.WellFormed) (hf : c.Faithful) (inode offset : ℕ) :
    c.Forgets (c.get inode offset).2 := by
  cases hm : AList.lookup (c.key inode offset) c.memoryCache with
  | some block =>
    rw [get_memory hm]
    refine ⟨rfl, fun k data hk => ?_⟩
    simp only [visible, Table.lookup_insert_if] at hk ⊢
    by_cases hkey : k = c.key inode offset
    · rw [if_pos hkey] at hk
      rw [hkey, hm]
      exact hk
    · rwa [if_neg hkey] at hk
  | none =>
    cases hd : c.diskCache with
    | none =>
      rw [get_miss hm hd]
      exact .refl c
    | some disk =>
      have hread := DiskCache.get_forgets (hw disk hd) c.now (c.key inode offset)
      have hwell : DataCache.WellFormed
          { c.ticked with diskCache := some (disk.get c.now (c.key inode offset)).2 } := by
        rintro d ⟨⟩
        exact hread.wellFormed
      have hfaith : DataCache.Faithful
          { c.ticked with diskCache := some (disk.get c.now (c.key inode offset)).2 } := by
        rintro d ⟨⟩
        exact DiskCache.faithful_kept.get disk c.now (c.key inode offset) (hf disk hd)
      have hforgets : c.Forgets
          { c.ticked with diskCache := some (disk.get c.now (c.key inode offset)).2 } := by
        refine ⟨rfl, fun k data hk => ?_⟩
        simp only [visible, fromDisk_faithful hf, fromDisk_faithful hfaith] at hk ⊢
        cases hmem : AList.lookup k c.memoryCache with
        | some b =>
          simp only [ticked, hmem] at hk
          exact hk
        | none =>
          simp only [ticked, hmem] at hk
          exact Option.bind_eq_some_iff.mpr ⟨disk, hd, hread.content k data hk⟩
      rw [get_disk hm hd]
      cases hc : disk.answer (c.key inode offset) with
      | none => exact hforgets
      | some data =>
        have hput := putMemory_puts hwell hfaith (c.key inode offset) data
        refine ⟨hput.blockSize, fun k d hk => ?_⟩
        by_cases hkey : k = c.key inode offset
        · subst hkey
          rw [hput.stored] at hk
          rw [visible_of_not_memory hm, fromDisk, hd, Option.bind_some, hc, hk]
        · exact hforgets.visible k d (hput.others k d hkey hk)

theorem invalidate_onDisk {c : DataCache} (hw : c.WellFormed) (inode : ℕ) (key : BlockKey) :
    (key.inode = inode → (c.invalidate inode).onDisk key = none) ∧
      ∀ data, (c.invalidate inode).onDisk key = some data → c.onDisk key = some data := by
  unfold invalidate onDisk
  cases hd : c.diskCache with
  | none => exact ⟨fun _ => rfl, fun _ h => nomatch h⟩
  | some disk =>
    obtain ⟨hf, hgone⟩ := DiskCache.invalidate_spec (hw disk hd) inode
    exact ⟨hgone key, hf.content key⟩

/-- An invalidation asks nothing of the disk. -/
theorem invalidate_fromDisk {c : DataCache} (hw : c.WellFormed) (inode : ℕ) (key : BlockKey) :
    (key.inode = inode → (c.invalidate inode).fromDisk key = none) ∧
      ∀ data, (c.invalidate inode).fromDisk key = some data → c.fromDisk key = some data := by
  unfold invalidate fromDisk
  cases hd : c.diskCache with
  | none => exact ⟨fun _ => rfl, fun _ h => nomatch h⟩
  | some disk =>
    obtain ⟨hf, hgone⟩ := DiskCache.invalidate_spec (hw disk hd) inode
    have hfault : (disk.invalidate inode).fault = disk.fault := rfl
    simp only [Option.map_some, Option.bind_some, DiskCache.answer, hfault]
    cases disk.fault with
    | none => exact ⟨hgone key, hf.content key⟩
    | some _ => exact ⟨fun _ => rfl, fun _ h => h⟩

theorem invalidate_spec {c : DataCache} (hw : c.WellFormed) (inode : ℕ) :
    c.Forgets (c.invalidate inode) ∧
      ∀ key, key.inode = inode → (c.invalidate inode).visible key = none := by
  have hmem : ∀ k, AList.lookup k (c.invalidate inode).memoryCache =
      (AList.lookup k c.memoryCache).filter fun _ => k.inode ≠ inode :=
    fun k => Table.lookup_keep ..
  refine ⟨⟨rfl, fun k data hk => ?_⟩, fun k hk => ?_⟩
  · obtain ⟨hgone, hsub⟩ := invalidate_fromDisk hw inode k
    by_cases hi : k.inode = inode
    · have hnone : AList.lookup k (c.invalidate inode).memoryCache = none := by
        rw [hmem, Option.filter_eq_none_iff]
        simp [hi]
      rw [visible_of_not_memory hnone, hgone hi] at hk
      cases hk
    · have hsame : AList.lookup k (c.invalidate inode).memoryCache =
          AList.lookup k c.memoryCache := by
        rw [hmem]
        cases AList.lookup k c.memoryCache <;> simp [hi]
      simp only [visible, hsame] at hk ⊢
      cases hb : AList.lookup k c.memoryCache with
      | some b =>
        rw [hb] at hk
        exact hk
      | none =>
        rw [hb] at hk
        exact hsub data hk
  · have hnone : AList.lookup k (c.invalidate inode).memoryCache = none := by
      rw [hmem, Option.filter_eq_none_iff]
      simp [hk]
    rw [visible_of_not_memory hnone]
    exact (invalidate_fromDisk hw inode k).1 hk

theorem clear_visible (c : DataCache) (key : BlockKey) : c.clear.visible key = none := by
  have hm : AList.lookup key c.clear.memoryCache = none := AList.lookup_empty key
  rw [visible_of_not_memory hm, Option.eq_none_iff_forall_ne_some]
  intro data hdata
  obtain ⟨disk, hdisk, hc⟩ := Option.bind_eq_some_iff.mp (onDisk_of_fromDisk hdata)
  obtain ⟨d, -, rfl⟩ := Option.map_eq_some_iff.mp hdisk
  rw [d.clear_content] at hc
  cases hc

/-- The block is one of those that `invalidate_range` takes out of the memory tier. -/
def Removes (c : DataCache) (inode offset len : ℕ) (key : BlockKey) : Prop :=
  key.inode = inode ∧ key.offset % c.blockSize = 0 ∧
    offset / c.blockSize ≤ key.offset / c.blockSize ∧
    key.offset / c.blockSize < c.endBlock offset len

instance (c : DataCache) (inode offset len : ℕ) (key : BlockKey) :
    Decidable (c.Removes inode offset len key) :=
  inferInstanceAs (Decidable (_ ∧ _))

theorem removes_of_intersects {c : DataCache} {inode offset len o : ℕ}
    (hw : offset + len + c.blockSize - 1 < 2 ^ 64)
    (h : (c.key inode o).Intersects c.blockSize inode offset len) :
    c.Removes inode offset len (c.key inode o) := by
  have hp := c.blockSize_pos
  obtain ⟨-, -, hmeet⟩ := h
  have hoff : (c.key inode o).offset = o / c.blockSize * c.blockSize := rfl
  rw [hoff] at hmeet
  refine ⟨rfl, by rw [hoff, Nat.mul_mod_left], ?_⟩
  rw [hoff, Nat.mul_div_cancel _ hp, endBlock, u64_eq hw]
  exact (block_meets_iff hp).mpr hmeet

theorem lookup_removeBlocks (blockSize inode : ℕ) (hp : 0 < blockSize) (b n : ℕ)
    (t : Table BlockKey CachedBlock) (key : BlockKey) :
    AList.lookup key (removeBlocks blockSize inode b n t).2 =
      if key.inode = inode ∧ key.offset % blockSize = 0 ∧ b ≤ key.offset / blockSize ∧
          key.offset / blockSize < b + n then none
      else AList.lookup key t := by
  induction n generalizing b t with
  | zero =>
    rw [if_neg (by omega)]
    rfl
  | succ n ih =>
    rw [removeBlocks]
    dsimp only
    rw [ih, Table.lookup_erase_if]
    by_cases hkey : key = ⟨inode, b * blockSize⟩
    · have hoff : key.offset = b * blockSize := by rw [hkey]
      have hin : key.inode = inode ∧ key.offset % blockSize = 0 ∧ b ≤ key.offset / blockSize ∧
          key.offset / blockSize < b + (n + 1) := by
        rw [hoff, Nat.mul_mod_left, Nat.mul_div_cancel _ hp]
        exact ⟨by rw [hkey], rfl, le_rfl, by omega⟩
      rw [if_pos hin, if_pos hkey, ite_self]
    · rw [if_neg hkey]
      have hne : key.inode = inode → key.offset % blockSize = 0 → key.offset / blockSize ≠ b := by
        intro hi hm hb
        apply hkey
        have hoff := Nat.div_add_mod key.offset blockSize
        rw [hm, hb, Nat.add_zero, Nat.mul_comm] at hoff
        cases key
        rw [BlockKey.mk.injEq]
        exact ⟨hi, hoff.symm⟩
      congr 1
      rw [eq_iff_iff]
      constructor
      · intro hc
        obtain ⟨hi, hm, hlo, hhi⟩ := hc
        exact ⟨hi, hm, by omega, by omega⟩
      · intro hc
        obtain ⟨hi, hm, hlo, hhi⟩ := hc
        have := hne hi hm
        exact ⟨hi, hm, by omega, by omega⟩

theorem invalidateRange_lookup (c : DataCache) (inode offset len : ℕ) (key : BlockKey) :
    AList.lookup key (c.invalidateRange inode offset len).memoryCache =
      if c.Removes inode offset len key then none else AList.lookup key c.memoryCache := by
  simp only [invalidateRange]
  rw [lookup_removeBlocks _ _ c.blockSize_pos]
  congr 1
  rw [eq_iff_iff, Removes]
  constructor
  · intro hc
    obtain ⟨hi, hm, hlo, hhi⟩ := hc
    exact ⟨hi, hm, hlo, by omega⟩
  · intro hc
    obtain ⟨hi, hm, hlo, hhi⟩ := hc
    exact ⟨hi, hm, hlo, by omega⟩

theorem invalidateRange_visible (c : DataCache) (inode offset len : ℕ) (key : BlockKey) :
    (c.invalidateRange inode offset len).visible key =
      if c.Removes inode offset len key then c.fromDisk key else c.visible key := by
  have hdisk : (c.invalidateRange inode offset len).fromDisk key = c.fromDisk key := rfl
  simp only [visible, c.invalidateRange_lookup, hdisk]
  by_cases h : c.Removes inode offset len key
  · simp only [h, if_true]
  · simp only [h, if_false]

end DataCache

end ObsFuse
