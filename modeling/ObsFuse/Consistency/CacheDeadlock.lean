import ObsFuse.Cache.DataThreads

/-! # Deadlock in the data cache

Every method takes `memory_usage` before the locks of the disk tier. Of the other two,
`DiskCache::put` takes `entries` inside `current_size` when it evicts, and `current_size`
inside `entries` when it counts a new entry; `memory_usage` keeps two puts apart. A clear
takes `current_size` inside `entries` without it. -/

namespace ObsFuse
open Lib

namespace CachePc

/-- A put that has no room asks for `entries` and holds `current_size`. -/
def Evicting : CachePc → Prop
  | .diskPut _ _ _ _ .evictLock => True
  | .diskPut _ _ _ _ .sumLock => True
  | _ => False

def Crowded (c : DataCache) : CachePc → Prop
  | .diskPut _ _ _ block .checkSize =>
    ∃ disk ∈ c.diskCache, disk.sizeLimit < disk.currentSize + block.length
  | _ => False

def Plain : CachePc → Prop
  | .diskPut _ _ _ _ .evictLock => False
  | .diskPut _ _ _ _ .sumLock => False
  | .diskClearSizeLock => False
  | _ => True

theorem Plain.not_evicting {pc : CachePc} (h : pc.Plain) : ¬pc.Evicting := by
  intro hevicting
  unfold Evicting at hevicting
  split at hevicting
  · exact h
  · exact h
  · exact hevicting

theorem Plain.ne {pc : CachePc} (h : pc.Plain) : pc ≠ .diskClearSizeLock := by
  rintro rfl
  exact h

def entriesFirst : CacheMutex → ℕ
  | .memoryUsage => 0
  | .entries => 1
  | .currentSize => 2

def sizeFirst : CacheMutex → ℕ
  | .memoryUsage => 0
  | .currentSize => 1
  | .entries => 2

/-- The points at which a lock is asked for while another one is held. -/
inductive Nested : CachePc → CacheMutex → Prop where
  | lockSize (key data victim block) :
    Nested (.diskPut key data victim block .lockSize) .currentSize
  | evictLock (key data victim block) :
    Nested (.diskPut key data victim block .evictLock) .entries
  | sumLock (key data victim block) :
    Nested (.diskPut key data victim block .sumLock) .entries
  | lockEntries (key data victim block) :
    Nested (.diskPut key data victim block .lockEntries) .entries
  | lockTotal (key data victim block) :
    Nested (.diskPut key data victim block .lockTotal) .currentSize
  | clearSize : Nested .diskClearSizeLock .currentSize

theorem nested_of_acquire {pc next : CachePc} {l m : CacheMutex}
    (hmove : pc.move = .acquire m next) (hheld : l ∈ pc.holds) : Nested pc m := by
  cases pc with
  | diskPut key data victim block pc =>
    cases pc with
    | lockSize | evictLock | sumLock | lockEntries | lockTotal =>
      cases hmove
      constructor
    | _ => cases hmove
  | diskClearSizeLock =>
    cases hmove
    constructor
  | getLock _ | putLock _ _ | subLock _ _ | diskInvalidateLock _ | clearUsageLock |
    diskClearLock => cases hheld
  | removeKeys _ keys _ =>
    cases keys
    all_goals cases hmove
  | removeRange _ _ n _ =>
    cases n
    all_goals cases hmove
  | invalidateDisk inode =>
    cases inode
    all_goals cases hmove
  | _ => cases hmove

theorem evicting_of_outOfOrder {pc : CachePc}
    (h : Threads.OutOfOrder move holds entriesFirst pc) : pc.Evicting := by
  obtain ⟨l, m, next, hmove, hheld, hle⟩ := h
  cases nested_of_acquire hmove hheld with
  | evictLock key data victim block => trivial
  | sumLock key data victim block => trivial
  | lockSize | lockEntries =>
    rcases Finset.mem_insert.mp hheld with rfl | hnone
    · exact absurd hle (by decide)
    · cases hnone
  | lockTotal =>
    rcases Finset.mem_insert.mp hheld with rfl | hone
    · exact absurd hle (by decide)
    · rw [Finset.mem_singleton.mp hone] at hle
      exact absurd hle (by decide)
  | clearSize =>
    rw [Finset.mem_singleton.mp hheld] at hle
    exact absurd hle (by decide)

theorem counting_of_outOfOrder {pc : CachePc}
    (h : Threads.OutOfOrder move holds sizeFirst pc) :
    .memoryUsage ∈ pc.holds ∧ ¬pc.Evicting ∨ pc = .diskClearSizeLock := by
  obtain ⟨l, m, next, hmove, hheld, hle⟩ := h
  cases nested_of_acquire hmove hheld with
  | lockSize | lockEntries | lockTotal =>
    exact .inl ⟨Finset.mem_insert_self _ _, id⟩
  | evictLock | sumLock =>
    rcases Finset.mem_insert.mp hheld with rfl | hone
    · exact absurd hle (by decide)
    · rw [Finset.mem_singleton.mp hone] at hle
      exact absurd hle (by decide)
  | clearSize => exact .inr rfl

theorem holds_of_evicting {pc : CachePc} (h : pc.Evicting) :
    pc.holds = {.memoryUsage, .currentSize} ∧ ∃ next, pc.move = .acquire .entries next := by
  unfold Evicting at h
  split at h
  · exact ⟨rfl, _, rfl⟩
  · exact ⟨rfl, _, rfl⟩
  · cases h

/-! ### Where the next step leads -/

/-- The three steps after which a thread may be at a point of a circular wait. -/
inductive Turning : CachePc → Prop where
  | checkSize (key data victim block) : Turning (.diskPut key data victim block .checkSize)
  | evicted (key data victim block) : Turning (.diskPut key data victim block (.evictUnlock true))
  | clearing : Turning .diskClear

/-- The locks that a thread holds tell most points apart from those of a circular wait. -/
theorem plain_of_holds {pc : CachePc} {held : Finset CacheMutex} (h : pc.holds = held)
    (hput : held ≠ {.memoryUsage, .currentSize}) (hclear : held ≠ {.entries}) : pc.Plain := by
  rw [← h] at hput hclear
  unfold Plain
  split
  · exact hput rfl
  · exact hput rfl
  · exact hclear rfl
  · trivial

theorem diskPut_leads_plain (key : BlockKey) (data : Bytes) (victim : BlockKey) (block : Bytes)
    (pc : DiskPutPc) : Turning (.diskPut key data victim block pc) ∨
      (pc.move key data victim block).Leads Plain := by
  have hd := pc.move_disciplined key data victim block
  cases pc with
  | checkSize => exact .inl (.checkSize _ _ _ _)
  | evictUnlock evicted =>
    cases evicted with
    | true => exact .inl (.evicted _ _ _ _)
    | false => exact .inr trivial
  | lockSize | evictLock | sumLock | sumUnlock _ | lockEntries | lockTotal | unlockTotal |
    unlockEntries => exact .inr trivial
  | unlockSize room =>
    right
    cases room
    all_goals trivial
  | setSize _ =>
    right
    intro i c
    exact DataCache.viaDisk_leads _ trivial fun _ => trivial
  | evict | sum =>
    right
    intro i c
    exact @plain_of_holds _ {.memoryUsage, .entries, .currentSize} (hd i c) (by decide)
      (by decide)
  | write =>
    right
    intro i c
    exact @plain_of_holds _ {.memoryUsage} (hd i c) (by decide) (by decide)
  | insertEntry =>
    right
    intro i c
    exact @plain_of_holds _ {.memoryUsage, .entries} (hd i c) (by decide) (by decide)
  | addSize =>
    right
    intro i c
    exact @plain_of_holds _ {.memoryUsage, .currentSize, .entries} (hd i c) (by decide)
      (by decide)

theorem leads_plain (pc : CachePc) : Turning pc ∨ pc.move.Leads Plain := by
  have hd := pc.move_disciplined
  have hfree : ∀ {next : CachePc}, next.holds = ∅ → next.Plain :=
    fun h => plain_of_holds h (by decide) (by decide)
  have husage : ∀ {next : CachePc}, next.holds = {.memoryUsage} → next.Plain :=
    fun h => plain_of_holds h (by decide) (by decide)
  cases pc with
  | diskPut key data victim block pc => exact diskPut_leads_plain key data victim block pc
  | diskClear => exact .inl .clearing
  | getLock _ | putLock _ _ | subLock _ _ | diskInvalidateLock _ | clearUsageLock |
    diskClearLock | diskClearSizeLock | getUnlock _ _ | putUnlock _ _ | subUnlock _ |
    diskInvalidateUnlock | clearUsageUnlock | diskClearSizeUnlock | diskClearUnlock =>
    exact .inr trivial
  | idle | getMemory _ | getRead _ _ | putInsert _ _ | collectKeys _ | clearMemory | clearDisk =>
    exact .inr fun i c => hfree (hd i c)
  | removeKeys _ keys _ =>
    cases keys
    all_goals exact .inr fun i c => hfree (hd i c)
  | removeRange _ _ n _ =>
    cases n
    all_goals exact .inr fun i c => hfree (hd i c)
  | invalidateDisk inode =>
    cases inode
    all_goals exact .inr fun i c => hfree (hd i c)
  | putCheck _ _ | evictScan _ _ | evictRemove _ _ _ | putSub _ _ _ | putAdd _ _ | sub _ _ |
    clearUsage => exact .inr fun i c => husage (hd i c)
  | diskInvalidate _ | diskClearSize =>
    right
    intro i c
    exact c.viaDisk_leads trivial fun _ => trivial
  | getEntry key =>
    right
    intro i c
    apply DataCache.viaDisk_leads _ trivial
    intro disk
    cases disk.entries.lookup key
    all_goals trivial

end CachePc

namespace DataCache

abbrev CacheThreads := Threads DataCache CacheMutex CachePc

variable {s : CacheThreads}

/-- Threads wait for each other in a circle only as a put that evicts and a clear do. -/
theorem circularWait_iff (hs : s.Owned CachePc.holds) :
    s.CircularWait CachePc.move ↔
      (∃ t, (s.pc t).Evicting) ∧ ∃ u, s.pc u = .diskClearSizeLock := by
  refine ⟨?_, ?_⟩
  · intro h
    obtain ⟨t, ht⟩ := h.outOfOrder CachePc.entriesFirst hs
    have hevicting := CachePc.evicting_of_outOfOrder ht
    refine ⟨⟨t, hevicting⟩, ?_⟩
    obtain ⟨u, hu⟩ := h.outOfOrder CachePc.sizeFirst hs
    rcases CachePc.counting_of_outOfOrder hu with ⟨hheld, hnot⟩ | hclear
    · -- the one put that holds `memory_usage` is evicting
      have hput : CacheMutex.memoryUsage ∈ (s.pc t).holds := by
        rw [(CachePc.holds_of_evicting hevicting).1]
        exact Finset.mem_insert_self _ _
      rw [hs.unique hheld hput] at hnot
      exact absurd hevicting hnot
    · exact ⟨u, hclear⟩
  · rintro ⟨⟨t, ht⟩, u, hu⟩
    obtain ⟨hheld, next, hmove⟩ := CachePc.holds_of_evicting ht
    apply @Threads.circularWait_of_two _ _ _ _ CachePc.move s t u
    · refine ⟨.entries, next, hmove, ?_⟩
      rw [hs, hu]
      exact Finset.mem_singleton_self _
    · refine ⟨.currentSize, .diskClearSize, ?_, ?_⟩
      · rw [hu]
        rfl
      · rw [hs, hheld]
        decide

/-- The step leads no put that has no room to wait for a clear, and no clear to wait for a put
that has none. -/
def ClearApart (s : CacheThreads) (event : ℕ × CacheInput) : Prop :=
  ((s.pc event.1).Crowded s.shared → ∀ u, s.pc u ≠ .diskClearSizeLock) ∧
  (s.pc event.1 = .diskClear → ∀ u, ¬(s.pc u).Evicting)

theorem checkSize_evicting_iff (c : DataCache) (i : CacheInput) (key : BlockKey) (data : Bytes)
    (victim : BlockKey) (block : Bytes) {f : CacheInput → DataCache → DataCache × CachePc}
    (hf : CachePc.move (.diskPut key data victim block .checkSize) = .act f) :
    (f i c).2.Evicting ↔ (CachePc.diskPut key data victim block .checkSize).Crowded c := by
  cases hf
  simp only [viaDisk, CachePc.Crowded]
  cases c.diskCache with
  | none =>
    refine ⟨False.elim, ?_⟩
    rintro ⟨disk, hdisk, -⟩
    cases hdisk
  | some disk =>
    dsimp only
    by_cases hfull : disk.sizeLimit < disk.currentSize + block.length
    · rw [if_pos hfull]
      exact ⟨fun _ => ⟨disk, rfl, hfull⟩, fun _ => trivial⟩
    · rw [if_neg hfull]
      refine ⟨False.elim, ?_⟩
      rintro ⟨disk', hdisk, hfull'⟩
      cases hdisk
      exact hfull hfull'

theorem step_of_crowded {t : ℕ} (i : CacheInput) (h : (s.pc t).Crowded s.shared) :
    ((s.step CachePc.move (t, i)).pc t).Evicting := by
  have hpc : ∃ key data victim block, s.pc t = .diskPut key data victim block .checkSize := by
    unfold CachePc.Crowded at h
    split at h
    · exact ⟨_, _, _, _, by assumption⟩
    · cases h
  obtain ⟨key, data, victim, block, hpc⟩ := hpc
  rw [hpc] at h
  rw [Threads.step_pc_act (congrArg CachePc.move hpc) i]
  exact (checkSize_evicting_iff s.shared i key data victim block rfl).mpr h

theorem step_of_diskClear {t : ℕ} (i : CacheInput) (h : s.pc t = .diskClear) :
    (s.step CachePc.move (t, i)).pc t = .diskClearSizeLock := by
  rw [Threads.step_pc_act (congrArg CachePc.move h) i]
  exact @viaDisk_leads (· = .diskClearSizeLock) s.shared _ _ rfl fun _ => rfl

theorem step_evicting {t : ℕ} {i : CacheInput}
    (h : ((s.step CachePc.move (t, i)).pc t).Evicting) :
    (s.pc t).Evicting ∨ (s.pc t).Crowded s.shared ∨ .entries ∈ (s.pc t).holds := by
  rcases CachePc.leads_plain (s.pc t) with hturn | hleads
  · right
    generalize hpc : s.pc t = pc at hturn
    cases hturn with
    | checkSize key data victim block =>
      left
      rw [Threads.step_pc_act (congrArg CachePc.move hpc) i] at h
      exact (checkSize_evicting_iff s.shared i key data victim block rfl).mp h
    | evicted key data victim block =>
      exact .inr (Finset.mem_insert_of_mem (Finset.mem_insert_self _ _))
    | clearing => exact .inr (Finset.mem_singleton_self _)
  · rcases Threads.step_pc_of_leads hleads i with hstay | hplain
    · rw [hstay] at h
      exact .inl h
    · exact absurd h hplain.not_evicting

theorem step_diskClearSizeLock {t : ℕ} {i : CacheInput}
    (h : (s.step CachePc.move (t, i)).pc t = .diskClearSizeLock) :
    s.pc t = .diskClearSizeLock ∨ s.pc t = .diskClear := by
  by_cases hclear : s.pc t = .diskClear
  · exact .inr hclear
  · have hleads : (s.pc t).move.Leads (· ≠ .diskClearSizeLock) := by
      generalize s.pc t = pc at hclear
      rcases pc.leads_plain with hturn | hplain
      · cases hturn with
        | checkSize key data victim block =>
          intro i c
          refine @viaDisk_leads (· ≠ .diskClearSizeLock) c _ _ ?_ fun disk => ?_
          · exact CachePc.Plain.ne trivial
          · split
            all_goals
              intro heq
              cases heq
        | evicted key data victim block =>
          intro heq
          cases heq
        | clearing => exact absurd rfl hclear
      · exact hplain.imp fun _ => CachePc.Plain.ne
    rcases Threads.step_pc_of_leads hleads i with hstay | hne
    · rw [hstay] at h
      exact .inl h
    · exact absurd h hne

/-- Where there is no circular wait, a step makes none exactly when it is apart. -/
theorem step_circularWait_iff (hs : s.Owned CachePc.holds)
    (hfree : ¬s.CircularWait CachePc.move) (event : ℕ × CacheInput) :
    ¬(s.step CachePc.move event).CircularWait CachePc.move ↔ ClearApart s event := by
  obtain ⟨t, i⟩ := event
  have hother : ∀ u, u ≠ t → (s.step CachePc.move (t, i)).pc u = s.pc u :=
    fun u hu => Threads.step_pc_of_ne hu i
  rw [circularWait_iff (hs.step CachePc.move_disciplined (t, i))]
  rw [circularWait_iff hs] at hfree
  refine ⟨?_, ?_⟩
  · intro h
    refine ⟨?_, ?_⟩
    · intro hcrowded u hu
      have hne : u ≠ t := by
        rintro rfl
        rw [hu] at hcrowded
        exact hcrowded
      exact h ⟨⟨t, step_of_crowded i hcrowded⟩, u, by rw [hother u hne, hu]⟩
    · intro hclear u hu
      have hne : u ≠ t := by
        rintro rfl
        rw [hclear] at hu
        exact hu
      exact h ⟨⟨u, by rwa [hother u hne]⟩, t, step_of_diskClear i hclear⟩
  · rintro ⟨hcrowded, hclear⟩ ⟨⟨p, hp⟩, u, hu⟩
    by_cases hpt : p = t
    · have hut : u ≠ t := by
        rintro rfl
        rw [hpt, hu] at hp
        exact hp
      rw [hother u hut] at hu
      rw [hpt] at hp
      rcases step_evicting hp with hold | hold | hheld
      · exact hfree ⟨⟨t, hold⟩, u, hu⟩
      · exact hcrowded hold u hu
      · -- the put and the clear would both hold `entries`
        refine hut (hs.unique (l := .entries) ?_ hheld)
        rw [hu]
        exact Finset.mem_singleton_self _
    · rw [hother p hpt] at hp
      by_cases hut : u = t
      · rw [hut] at hu
        rcases step_diskClearSizeLock hu with hold | hold
        · exact hfree ⟨⟨p, hp⟩, t, hold⟩
        · exact hclear hold p hp
      · rw [hother u hut] at hu
        exact hfree ⟨⟨p, hp⟩, u, hu⟩

end DataCache

/-- In every run of threads in the data cache, no locks are waited for in a circle exactly
when every step keeps the clears apart from the puts that have no room. -/
theorem cache_deadlock_free_iff (c : DataCache) (schedule : List (ℕ × CacheInput)) :
    (∀ n, ¬(run (Threads.step CachePc.move) (.start c .idle) (schedule.take n)).CircularWait
        CachePc.move) ↔
      Along (Threads.step CachePc.move) DataCache.ClearApart (.start c .idle) schedule := by
  have hstart : Threads.Owned CachePc.holds (.start c .idle) := .start rfl c
  apply @forall_states_iff_along _ _ (Threads.step CachePc.move) DataCache.ClearApart
    (Threads.Owned CachePc.holds) fun s => ¬s.CircularWait CachePc.move
  · intro s event hs
    exact hs.step CachePc.move_disciplined event
  · intro s event hs hfree
    exact DataCache.step_circularWait_iff hs hfree event
  · exact hstart
  · rw [DataCache.circularWait_iff hstart]
    rintro ⟨⟨t, ht⟩, -⟩
    exact ht

/-- A new cache with room for one block of two bytes in each tier. -/
def DataCache.oneBlock : DataCache :=
  .new 4 (by decide) 2 (some (.new ['d'] 3 .storage fun _ => none)) id .storage

/-- A thread that clears the cache comes as far as `DiskCache::clear`. Another thread puts
three blocks; the second one moves the first to disk, and for the third the disk has no room.
With `current_size` in its hand it asks for `entries`, which the clear has taken by then. -/
theorem put_and_clear_deadlock :
    let put (offset : ℕ) : ℕ × CacheInput := (1, ⟨.put 2 offset [7, 8], none⟩)
    let clear : ℕ × CacheInput := (2, ⟨.clear, none⟩)
    let schedule := List.replicate 6 clear ++ List.replicate 6 (put 0) ++
      List.replicate 20 (put 4) ++ List.replicate 6 (put 8) ++ [clear, clear, put 8]
    (run (Threads.step CachePc.move) (.start .oneBlock .idle) schedule).CircularWait
      CachePc.move :=
  Threads.circularWait_of_two ⟨.entries, _, rfl, rfl⟩ ⟨.currentSize, _, rfl, rfl⟩

end ObsFuse
