import ObsFuse.Cache.Metadata
import ObsFuse.Lib.Runs
import ObsFuse.Lib.Weight

/-! # The size of the attribute cache

A `put_attr` that finds the cache full evicts a tenth of the limit first, rounded down: of a
limit below ten, nothing. -/

namespace ObsFuse
open Lib

inductive AttrCall where
  | put (now : Instant) (inode : ℕ) (attr : FileAttr)
  | get (now : Instant) (inode : ℕ)
  | update (now : Instant) (inode : ℕ) (f : FileAttr → FileAttr)
  | invalidate (inode : ℕ)

namespace MetadataCache

def step (c : MetadataCache) : AttrCall → MetadataCache
  | .put now inode attr => c.putAttr now inode attr
  | .get now inode => (c.getAttr now inode).2
  | .update now inode f => c.updateAttr now inode f
  | .invalidate inode => c.invalidateAttr inode

/-- An eviction keeps nothing that was cached before something that it removes. -/
def EvictsOldest (c : MetadataCache) : Prop :=
  ∀ count i j, ∀ gone ∈ AList.lookup i c.attrCache,
    AList.lookup i (c.evictOldestAttrs count).attrCache = none →
      ∀ kept ∈ AList.lookup j (c.evictOldestAttrs count).attrCache, gone.cachedAt ≤ kept.cachedAt

structure Bounded (c : MetadataCache) : Prop where
  within : c.attrCache.entries.length ≤ c.config.maxEntries
  oldest : c.EvictsOldest

/-- A new inode finds the cache with room, or with a limit of which a tenth is at least one. -/
def HasRoom (c : MetadataCache) : AttrCall → Prop
  | .put _ inode _ => c.config.maxEntries ≤ c.attrCache.entries.length →
    10 ≤ c.config.maxEntries ∨ inode ∈ c.attrCache
  | _ => True

instance decidableHasRoom (c : MetadataCache) : (call : AttrCall) → Decidable (c.HasRoom call)
  | .put _ _ _ => inferInstanceAs (Decidable (_ → _))
  | .get _ _ | .update _ _ _ | .invalidate _ => isTrue trivial

/-! ### The oldest entries -/

theorem insertByTime_perm (e : ℕ × Instant) (es : List (ℕ × Instant)) :
    (insertByTime e es).Perm (e :: es) := by
  induction es with
  | nil => exact .refl _
  | cons x xs ih =>
    unfold insertByTime
    split
    · exact .refl _
    · exact (ih.cons x).trans (.swap e x xs)

theorem insertByTime_sorted (e : ℕ × Instant) {es : List (ℕ × Instant)}
    (h : es.Pairwise fun a b => a.2 ≤ b.2) :
    (insertByTime e es).Pairwise fun a b => a.2 ≤ b.2 := by
  induction es with
  | nil => exact List.pairwise_singleton ..
  | cons x xs ih =>
    obtain ⟨hhead, htail⟩ := List.pairwise_cons.mp h
    unfold insertByTime
    split
    · next hlt =>
      refine List.pairwise_cons.mpr ⟨?_, h⟩
      intro y hy
      rcases List.mem_cons.mp hy with rfl | hin
      · exact Nat.le_of_lt hlt
      · exact (Nat.le_of_lt hlt).trans (hhead y hin)
    · next hle =>
      refine List.pairwise_cons.mpr ⟨?_, ih htail⟩
      intro y hy
      rcases List.mem_cons.mp ((insertByTime_perm e xs).mem_iff.mp hy) with rfl | hin
      · exact Nat.le_of_not_lt hle
      · exact hhead y hin

theorem sortByTime_spec (es : List (ℕ × Instant)) :
    (sortByTime es).Perm es ∧ (sortByTime es).Pairwise fun a b => a.2 ≤ b.2 := by
  have hfold : ∀ es sorted : List (ℕ × Instant), (sorted.Pairwise fun a b => a.2 ≤ b.2) →
      (es.foldl (fun sorted e => insertByTime e sorted) sorted).Perm (sorted ++ es) ∧
        (es.foldl (fun sorted e => insertByTime e sorted) sorted).Pairwise
          fun a b => a.2 ≤ b.2 := by
    intro es
    induction es with
    | nil =>
      intro sorted hsorted
      rw [List.append_nil]
      exact ⟨.refl _, hsorted⟩
    | cons e es ih =>
      intro sorted hsorted
      obtain ⟨hperm, hrest⟩ := ih (insertByTime e sorted) (insertByTime_sorted e hsorted)
      refine ⟨hperm.trans ?_, hrest⟩
      have hhead := (insertByTime_perm e sorted).append_right es
      exact hhead.trans List.perm_middle.symm
  exact hfold es [] List.Pairwise.nil

variable {c : MetadataCache}

/-- The entries of the cache with their times, as an eviction looks at them. -/
def times (c : MetadataCache) : List (ℕ × Instant) :=
  sortByTime (c.order.visit (c.attrCache.entries.map fun e => (e.1, e.2.cachedAt)))

theorem mem_times {i : ℕ} {t : Instant} :
    (i, t) ∈ c.times ↔
      ∃ cached, AList.lookup i c.attrCache = some cached ∧ cached.cachedAt = t := by
  have hperm := (sortByTime_spec (c.order.visit
    (c.attrCache.entries.map fun e => (e.1, e.2.cachedAt)))).1
  unfold times
  rw [hperm.mem_iff, c.order.mem_visit, List.mem_map]
  refine Iff.intro ?_ ?_
  · rintro ⟨e, he, heq⟩
    cases heq
    exact ⟨e.2, c.attrCache.lookup_of_mem_entries he, rfl⟩
  · rintro ⟨cached, hcached, rfl⟩
    exact ⟨⟨i, cached⟩, c.attrCache.mem_entries_of_lookup hcached, rfl⟩

theorem length_times (c : MetadataCache) : c.times.length = c.attrCache.entries.length := by
  unfold times
  rw [(sortByTime_spec _).1.length_eq, (c.order.perm _).length_eq, List.length_map]

theorem lookup_evicted (c : MetadataCache) (count i : ℕ) :
    AList.lookup i (c.evictOldestAttrs count).attrCache =
      if i ∈ (c.times.take count).map Prod.fst then none else AList.lookup i c.attrCache :=
  Table.lookup_foldl_erase Prod.fst (c.times.take count) c.attrCache i

theorem evictsOldest (c : MetadataCache) : c.EvictsOldest := by
  intro count i j gone hgone hout kept hkept
  have hsorted : c.times.Pairwise fun a b => a.2 ≤ b.2 := (sortByTime_spec _).2
  rw [← List.take_append_drop count c.times, List.pairwise_append] at hsorted
  rw [lookup_evicted] at hout
  rw [Option.mem_def, lookup_evicted] at hkept
  split at hkept
  · cases hkept
  · next hj =>
    have hi : i ∈ (c.times.take count).map Prod.fst := by
      by_contra hnot
      rw [if_neg hnot, hgone] at hout
      cases hout
    obtain ⟨⟨i', t⟩, htaken, rfl⟩ := List.mem_map.mp hi
    obtain ⟨cached, hcached, htime⟩ := mem_times.mp (List.mem_of_mem_take htaken)
    obtain rfl := Option.some.inj (hgone.symm.trans hcached)
    -- what is kept stands among the later ones
    have hall : (j, kept.cachedAt) ∈ c.times.take count ++ c.times.drop count := by
      rw [List.take_append_drop]
      exact mem_times.mpr ⟨kept, hkept, rfl⟩
    have hlater : (j, kept.cachedAt) ∈ c.times.drop count := by
      rcases List.mem_append.mp hall with htake | hdrop
      · exact absurd (List.mem_map.mpr ⟨_, htake, rfl⟩) hj
      · exact hdrop
    have hle := hsorted.2.2 _ htaken _ hlater
    dsimp only at hle
    rw [htime]
    exact hle

/-! ### The number of entries -/

theorem length_evict_lt {count : ℕ} (hcount : 0 < count)
    (hfull : 0 < c.attrCache.entries.length) :
    (c.evictOldestAttrs count).attrCache.entries.length < c.attrCache.entries.length := by
  rw [← length_times] at hfull
  have htaken : 0 < (c.times.take count).length := by
    rw [List.length_take]
    omega
  show ((c.times.take count).foldl (fun t e => t.erase e.1) c.attrCache).entries.length < _
  cases hlist : c.times.take count with
  | nil =>
    rw [hlist] at htaken
    cases htaken
  | cons e es =>
    have hin : e ∈ c.times := List.mem_of_mem_take (by rw [hlist]; exact List.mem_cons_self ..)
    obtain ⟨cached, hcached, -⟩ := mem_times.mp hin
    have hfirst := c.attrCache.length_erase_lt (c.attrCache.mem_entries_of_lookup hcached)
    have hrest := Table.length_foldl_erase_le Prod.fst es (c.attrCache.erase e.1)
    exact Nat.lt_of_le_of_lt hrest hfirst

theorem length_insert (t : Table ℕ CachedAttr) (i : ℕ) (cached : CachedAttr) :
    (t.insert i cached).entries.length + (if i ∈ t then 1 else 0) = t.entries.length + 1 := by
  have hinsert := Table.weight_insert (fun _ : CachedAttr => 1) t i cached
  rw [Table.weight_one, Table.weight_one, Table.weightAt_one] at hinsert
  exact hinsert

theorem put_within_iff (h : c.attrCache.entries.length ≤ c.config.maxEntries) (now : Instant)
    (inode : ℕ) (attr : FileAttr) :
    (c.putAttr now inode attr).attrCache.entries.length ≤ c.config.maxEntries ↔
      c.HasRoom (.put now inode attr) := by
  have hinsert := length_insert c.attrCache inode ⟨attr, now⟩
  simp only [putAttr, HasRoom]
  by_cases hfull : c.config.maxEntries ≤ c.attrCache.entries.length
  · rw [if_pos hfull]
    by_cases hten : 10 ≤ c.config.maxEntries
    · have hevict := @length_evict_lt c (c.config.maxEntries / 10) (by omega) (by omega)
      have hafter := length_insert (c.evictOldestAttrs (c.config.maxEntries / 10)).attrCache inode
        ⟨attr, now⟩
      refine Iff.intro (fun _ _ => .inl hten) fun _ => ?_
      omega
    · -- a tenth of the limit is nothing
      have hzero : c.config.maxEntries / 10 = 0 := by omega
      have hsame : (c.evictOldestAttrs (c.config.maxEntries / 10)).attrCache = c.attrCache := by
        rw [hzero]
        rfl
      rw [hsame]
      by_cases hin : inode ∈ c.attrCache
      · rw [if_pos hin] at hinsert
        refine Iff.intro (fun _ _ => .inr hin) fun _ => ?_
        omega
      · rw [if_neg hin] at hinsert
        refine Iff.intro (fun hle => ?_) fun hroom => ?_
        · omega
        · rcases hroom hfull with hge | hmem
          · exact absurd hge hten
          · exact absurd hmem hin
  · rw [if_neg hfull]
    refine Iff.intro (fun _ hge => absurd hge hfull) fun _ => ?_
    omega

theorem Bounded.step_iff (h : c.Bounded) (call : AttrCall) :
    (c.step call).Bounded ↔ c.HasRoom call := by
  have hwithin : (c.step call).Bounded ↔
      (c.step call).attrCache.entries.length ≤ (c.step call).config.maxEntries :=
    ⟨fun h' => h'.within, fun hle => ⟨hle, evictsOldest _⟩⟩
  rw [hwithin]
  cases call with
  | put now inode attr =>
    have hconfig : (c.putAttr now inode attr).config = c.config := by
      simp only [putAttr]
      split
      · rfl
      · rfl
    show (c.putAttr now inode attr).attrCache.entries.length ≤
      (c.putAttr now inode attr).config.maxEntries ↔ _
    rw [hconfig]
    exact put_within_iff h.within now inode attr
  | get now inode =>
    refine Iff.intro (fun _ => trivial) fun _ => ?_
    show (c.getAttr now inode).2.attrCache.entries.length ≤
      (c.getAttr now inode).2.config.maxEntries
    unfold getAttr
    split
    · split
      · exact (c.attrCache.length_erase_le inode).trans h.within
      · exact h.within
    · exact h.within
  | update now inode f =>
    refine Iff.intro (fun _ => trivial) fun _ => ?_
    show (c.attrCache.modify inode fun cached => ⟨f cached.attr, now⟩).entries.length ≤
      c.config.maxEntries
    have hle := h.within
    unfold Table.modify
    split
    · next cached hcached =>
      have hin : inode ∈ c.attrCache := AList.lookup_isSome.mp (by rw [hcached]; rfl)
      have hinsert := length_insert c.attrCache inode ⟨f cached.attr, now⟩
      rw [if_pos hin] at hinsert
      show (c.attrCache.insert inode ⟨f cached.attr, now⟩).entries.length ≤ c.config.maxEntries
      omega
    · exact hle
  | invalidate inode =>
    exact Iff.intro (fun _ => trivial) fun _ => (c.attrCache.length_erase_le inode).trans h.within

end MetadataCache

/-- In every run from a new cache, the cache is within its limit in every state, and evicts the
oldest entries only, exactly when every new inode finds room or a limit of at least ten. -/
theorem attr_cache_bounded_iff (config : MetadataCacheConfig) (order : IterOrder (ℕ × Instant))
    (calls : List AttrCall) :
    (∀ n, (run MetadataCache.step (.new config order) (calls.take n)).Bounded) ↔
      Along MetadataCache.step MetadataCache.HasRoom (.new config order) calls :=
  @forall_states_iff_along _ _ MetadataCache.step MetadataCache.HasRoom (fun _ => True)
    MetadataCache.Bounded (fun _ _ _ => trivial) (fun _ call _ h => h.step_iff call) _ calls
    trivial ⟨Nat.zero_le _, MetadataCache.evictsOldest _⟩

/-- Two inodes are cached under a limit of one. -/
theorem second_inode_exceeds_limit :
    let config : MetadataCacheConfig := ⟨3, 5, 1, 1⟩
    let attr := FileAttr.file 0 2 0 0 0 0o644
    let c := run MetadataCache.step (.new config .storage) [.put 0 2 attr, .put 1 3 attr]
    1 ≤ config.maxEntries ∧ c.attrCache.entries.length = 2 ∧ ¬c.Bounded := by
  intro config attr c
  refine ⟨by decide, by decide, ?_⟩
  intro h
  exact absurd h.within (by decide)

end ObsFuse
