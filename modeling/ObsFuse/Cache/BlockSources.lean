import ObsFuse.Cache.BlockView

/-! # Where the bytes of the data cache come from

A block may be kept in both tiers with different bytes, and the one on disk can come to light
again. Whatever either tier keeps for a block was put under its key, or begins what was, where
a file operation failed. -/

namespace ObsFuse
open Lib

namespace DataCache

/-- One of the tiers keeps the bytes for the block. -/
def Keeps (c : DataCache) (key : BlockKey) (data : Bytes) : Prop :=
  (∃ block, AList.lookup key c.memoryCache = some block ∧ block.data = data) ∨
    c.onDisk key = some data

theorem keeps_of_visible {c : DataCache} {key : BlockKey} {data : Bytes}
    (h : c.visible key = some data) : c.Keeps key data := by
  cases hm : AList.lookup key c.memoryCache with
  | some block =>
    rw [visible_of_memory hm] at h
    exact .inl ⟨block, hm, Option.some.inj h⟩
  | none =>
    rw [visible_of_not_memory hm] at h
    exact .inr (onDisk_of_fromDisk h)

/-- What may be left of the bytes of a block: their beginning, and all of them as long as no
file operation fails. -/
structure Leaves (c : DataCache) (data rest : Bytes) : Prop where
  isPrefix : rest <+: data
  whole : c.Faithful → rest = data

theorem Leaves.refl (c : DataCache) (data : Bytes) : c.Leaves data data :=
  ⟨List.prefix_refl data, fun _ => rfl⟩

theorem Leaves.eq_nil {c : DataCache} {data rest : Bytes} (h : c.Leaves data rest)
    (hdata : data = []) : rest = [] := by
  have hprefix := h.isPrefix
  rw [hdata] at hprefix
  exact List.prefix_nil.mp hprefix

theorem Leaves.eq_take {c : DataCache} {data rest : Bytes} {len : ℕ}
    (h : c.Leaves (data.take len) rest) :
    ∃ kept ≤ len, (c.Faithful → kept = len) ∧ rest = data.take kept := by
  by_cases hall : rest = data.take len
  · exact ⟨len, Nat.le_refl _, fun _ => rfl, hall⟩
  · refine ⟨min rest.length len, Nat.min_le_right .., fun hf => absurd (h.whole hf) hall, ?_⟩
    rw [← List.take_take]
    exact List.prefix_iff_eq_take.mp h.isPrefix

/-- The cache `c'` keeps at most what is left of what `c` keeps. -/
structure KeepsNoMore (c c' : DataCache) : Prop where
  blockSize : c'.blockSize = c.blockSize
  faithful : c.Faithful → c'.Faithful
  keeps : ∀ key rest, c'.Keeps key rest → ∃ data, c.Keeps key data ∧ c.Leaves data rest

theorem KeepsNoMore.refl (c : DataCache) : c.KeepsNoMore c :=
  ⟨rfl, id, fun _ data hk => ⟨data, hk, .refl c data⟩⟩

theorem KeepsNoMore.keeps_left {c c' : DataCache} (h : c.KeepsNoMore c') {key : BlockKey}
    {data rest : Bytes} (hk : c'.Keeps key data) (hleft : c'.Leaves data rest) :
    ∃ d, c.Keeps key d ∧ c.Leaves d rest := by
  obtain ⟨d, hd, hold⟩ := h.keeps key data hk
  refine ⟨d, hd, hleft.isPrefix.trans hold.isPrefix, fun hf => ?_⟩
  rw [hleft.whole (h.faithful hf), hold.whole hf]

theorem KeepsNoMore.trans {c c' c'' : DataCache} (h : c.KeepsNoMore c') (h' : c'.KeepsNoMore c'') :
    c.KeepsNoMore c'' := by
  refine ⟨h'.blockSize.trans h.blockSize, fun hf => h'.faithful (h.faithful hf), ?_⟩
  intro key rest hk
  obtain ⟨data, hdata, hleft⟩ := h'.keeps key rest hk
  exact h.keeps_left hdata hleft

/-- Both tiers only lose entries. -/
theorem KeepsNoMore.of_sub {c c' : DataCache} (hbs : c'.blockSize = c.blockSize)
    (hf : c.Faithful → c'.Faithful)
    (hm : ∀ key block, AList.lookup key c'.memoryCache = some block →
      AList.lookup key c.memoryCache = some block)
    (hd : ∀ key data, c'.onDisk key = some data → c.onDisk key = some data) :
    c.KeepsNoMore c' := by
  refine ⟨hbs, hf, fun key data hk => ⟨data, ?_, .refl c data⟩⟩
  rcases hk with ⟨block, hblock, hdata⟩ | hdisk
  · exact .inl ⟨block, hm key block hblock, hdata⟩
  · exact .inr (hd key data hdisk)

theorem evictOne_keepsNoMore {c : DataCache} (hw : c.WellFormed) : c.KeepsNoMore c.evictOne.2 := by
  refine ⟨c.evictOne_blockSize, evictOne_kept DiskCache.faithful_kept, fun k rest hk => ?_⟩
  simp only [evictOne] at hk
  split at hk
  · exact ⟨rest, hk, .refl c rest⟩
  · next key _ =>
    split at hk
    · exact ⟨rest, hk, .refl c rest⟩
    · next block hblock =>
      split at hk
      · next disk hdisk =>
        rcases hk with ⟨b, hb, hdata⟩ | hrest
        · exact ⟨rest, .inl ⟨b, Table.lookup_of_erase hb, hdata⟩, .refl c rest⟩
        · rcases (DiskCache.put_spec (hw disk hdisk) _ key block.data).2 k rest hrest with
            ⟨hkey, hcut⟩ | hold
          · -- the evicted block goes to the disk tier
            subst hkey
            refine ⟨block.data, .inl ⟨block, hblock, rfl⟩, hcut, fun hf => ?_⟩
            exact DiskCache.put_faithful (hw disk hdisk) (hf disk hdisk) _ hrest
          · exact ⟨rest, .inr (Option.bind_eq_some_iff.mpr ⟨disk, hdisk, hold⟩), .refl c rest⟩
      · refine ⟨rest, ?_, .refl c rest⟩
        rcases hk with ⟨b, hb, hdata⟩ | hrest
        · exact .inl ⟨b, Table.lookup_of_erase hb, hdata⟩
        · exact .inr hrest

theorem evictLoop_keepsNoMore {c : DataCache} (hw : c.WellFormed) (size k : ℕ) :
    c.KeepsNoMore (evictLoop size k c) := by
  induction k generalizing c with
  | zero => exact .refl c
  | succ k ih =>
    unfold evictLoop
    split
    · have hone := evictOne_keepsNoMore hw
      have hwell := evictOne_kept DiskCache.wellFormed_kept hw
      generalize c.evictOne = r at hone hwell
      obtain ⟨_ | evicted, c'⟩ := r
      · exact hone
      · have hused : c'.KeepsNoMore { c' with memoryUsage := c'.memoryUsage - evicted } :=
          .of_sub rfl id (fun _ _ => id) fun _ _ => id
        exact (hone.trans hused).trans (ih hwell)
    · exact .refl c

theorem putMemory_keeps {c : DataCache} (hw : c.WellFormed) {key k : BlockKey} {data rest : Bytes}
    (h : (c.putMemory key data).Keeps k rest) :
    (k = key ∧ rest = data) ∨ ∃ d, c.Keeps k d ∧ c.Leaves d rest := by
  have hloop := evictLoop_keepsNoMore hw data.length (c.memoryCache.entries.length + 1)
  rcases h with ⟨block, hblock, hdata⟩ | hdisk
  · simp only [putMemory] at hblock
    rw [Table.lookup_insert_if] at hblock
    split at hblock
    · next hkey =>
      obtain rfl := Option.some.inj hblock
      exact .inl ⟨hkey, hdata.symm⟩
    · exact .inr (hloop.keeps k rest (.inl ⟨block, hblock, hdata⟩))
  · exact .inr (hloop.keeps k rest (.inr hdisk))

/-- The question to the disk tier. -/
theorem asked_keepsNoMore {c : DataCache} (hw : c.WellFormed) {disk : DiskCache}
    (hd : c.diskCache = some disk) (key : BlockKey) :
    c.KeepsNoMore { c.ticked with diskCache := some (disk.get c.now key).2 } := by
  refine .of_sub rfl ?_ (fun _ _ => id) fun k data hdisk => ?_
  · rintro hf d ⟨⟩
    exact DiskCache.faithful_kept.get disk c.now key (hf disk hd)
  · have hread := DiskCache.get_forgets (hw disk hd) c.now key
    exact Option.bind_eq_some_iff.mpr ⟨disk, hd, hread.content k data hdisk⟩

theorem get_keepsNoMore {c : DataCache} (hw : c.WellFormed) (inode offset : ℕ) :
    c.KeepsNoMore (c.get inode offset).2 := by
  refine ⟨c.get_blockSize inode offset,
    fun hf => get_kept DiskCache.faithful_kept hf inode offset, fun k rest hk => ?_⟩
  cases hm : AList.lookup (c.key inode offset) c.memoryCache with
  | some block =>
    rw [get_memory hm] at hk
    refine ⟨rest, ?_, .refl c rest⟩
    rcases hk with ⟨b, hb, hdata⟩ | hdisk
    · dsimp only at hb
      rw [Table.lookup_insert_if] at hb
      split at hb
      · next hkey =>
        obtain rfl := Option.some.inj hb
        rw [hkey]
        exact .inl ⟨block, hm, hdata⟩
      · exact .inl ⟨b, hb, hdata⟩
    · exact .inr hdisk
  | none =>
    cases hd : c.diskCache with
    | none =>
      rw [get_miss hm hd] at hk
      exact ⟨rest, hk, .refl c rest⟩
    | some disk =>
      have hasked := asked_keepsNoMore hw hd (c.key inode offset)
      rw [get_disk hm hd] at hk
      cases hc : disk.answer (c.key inode offset) with
      | none =>
        rw [hc] at hk
        exact hasked.keeps k rest hk
      | some found =>
        rw [hc] at hk
        have hwell : DataCache.WellFormed
            { c.ticked with diskCache := some (disk.get c.now (c.key inode offset)).2 } := by
          rintro d ⟨⟩
          exact DiskCache.wellFormed_kept.get disk c.now (c.key inode offset) (hw disk hd)
        rcases putMemory_keeps hwell hk with ⟨rfl, rfl⟩ | ⟨data, hdata, hrest⟩
        · refine ⟨rest, .inr (Option.bind_eq_some_iff.mpr ⟨disk, hd, ?_⟩), .refl c rest⟩
          exact DiskCache.answer_content hc
        · exact hasked.keeps_left hdata hrest

theorem invalidate_keepsNoMore {c : DataCache} (hw : c.WellFormed) (inode : ℕ) :
    c.KeepsNoMore (c.invalidate inode) := by
  refine .of_sub rfl (fun hf => invalidate_kept DiskCache.faithful_kept hf inode)
    (fun key block h => ?_) fun key data h => (invalidate_onDisk hw inode key).2 data h
  simp only [invalidate] at h
  rw [Table.lookup_keep] at h
  exact (Option.filter_eq_some_iff.mp h).1

theorem invalidate_keeps_none {c : DataCache} (hw : c.WellFormed) {inode : ℕ} {key : BlockKey}
    (hkey : key.inode = inode) (data : Bytes) : ¬(c.invalidate inode).Keeps key data := by
  rintro (⟨block, hblock, -⟩ | hdisk)
  · simp only [invalidate] at hblock
    rw [Table.lookup_keep, Option.filter_eq_some_iff] at hblock
    simp [hkey] at hblock
  · rw [(invalidate_onDisk hw inode key).1 hkey] at hdisk
    cases hdisk

theorem invalidateRange_keepsNoMore (c : DataCache) (inode offset len : ℕ) :
    c.KeepsNoMore (c.invalidateRange inode offset len) := by
  refine .of_sub rfl id (fun key block h => ?_) fun _ _ h => h
  rw [c.invalidateRange_lookup] at h
  split at h
  · cases h
  · exact h

end DataCache

end ObsFuse
