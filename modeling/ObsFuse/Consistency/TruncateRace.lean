import ObsFuse.Cache.BlockSources
import ObsFuse.Fs.CacheSteps
import ObsFuse.Storage.Requests

/-! # Reads and prefetches of a file while it is emptied

A read stores what the storage answers in the data cache, a prefetch stores it among the
prefetched data, and a truncation takes the file out of both once its object is empty. Each
request and each operation of a cache is one step, and the steps of any number of reads and
prefetches mix with those of one truncation to size 0. Here is which interleavings leave
bytes of the old object to be read. -/

namespace ObsFuse
open Lib

structure RangeRead where
  obs : Str
  offset : ℕ
  size : ℕ

/-- Where a read is: about to ask the prefetched data, the data cache or the storage, with
the answer of the storage, with this answer cached, or returned. -/
inductive ReadTask where
  | prefetched (r : RangeRead)
  | dataCache (r : RangeRead)
  | request (r : RangeRead)
  | fetched (r : RangeRead) (data : Bytes)
  | cached (r : RangeRead) (data : Bytes)
  | returned (answer : FsResult Bytes)

inductive PrefetchTask where
  | request (job : PrefetchJob)
  | fetched (job : PrefetchJob) (data : Bytes)
  | finished

/-- Where the truncation is: not begun, with the object emptied, with the file out of the data
cache, or returned. -/
inductive TruncateTask where
  | pending
  | emptied
  | uncached
  | done
  | failed

/-- The bytes that the read puts in the data cache when it goes on. -/
def ReadTask.brings : ReadTask → Bytes
  | .fetched _ data => data
  | _ => []

/-- The bytes that the prefetch stores for the inode when it goes on. -/
def PrefetchTask.brings (inode : ℕ) : PrefetchTask → Bytes
  | .fetched job data => if job.request.inode = inode then data else []
  | _ => []

namespace TruncateTask

def hasEmptied : TruncateTask → Bool
  | .emptied | .uncached | .done => true
  | .pending | .failed => false

def hasUncached : TruncateTask → Bool
  | .uncached | .done => true
  | .pending | .emptied | .failed => false

def hasReturned : TruncateTask → Bool
  | .done => true
  | .pending | .emptied | .uncached | .failed => false

end TruncateTask

namespace ObsFsCore

/-- `do_read` up to the first cache it asks. -/
def beginRead (s : ObsFsCore) (now : Now) (inode fh offset size : ℕ) : ReadTask × ObsFsCore :=
  match s.inodeMgr.getPath inode with
  | none => (.returned (.err .notFound), s)
  | some path =>
    (.prefetched ⟨s.obsPath path, offset, size⟩,
      { s with handleMgr := s.handleMgr.update fh (·.updatePosition now.instant offset size) })

/-- The next request or cache operation of a read. -/
def resumeRead (s : ObsFsCore) (now : Now) (inode : ℕ) : ReadTask → ReadTask × ObsFsCore
  | .prefetched r =>
    match s.readahead.getPrefetched now.instant inode r.offset with
    | (some data, readahead) =>
      (.returned (.ok (data.take (min r.size data.length))), { s with readahead := readahead })
    | (none, readahead) => (.dataCache r, { s with readahead := readahead })
  | .dataCache r =>
    let (cached, dataCache) := s.dataCache.get inode r.offset
    let s := { s with dataCache := dataCache }
    match cached with
    | some data =>
      let start := r.offset % s.dataCache.blockSize
      let stop := min (start + r.size) data.length
      if start < data.length then (.returned (.ok ((data.take stop).drop start)), s)
      else (.request r, s)
    | none => (.request r, s)
  | .request r =>
    match s.obsClient.readRange r.obs r.offset r.size with
    | (.error _, cl) => (.returned (.err .ioError), { s with obsClient := cl })
    | (.ok data, cl) => (.fetched r data, { s with obsClient := cl })
  | .fetched r data => (.cached r data, { s with dataCache := s.dataCache.put inode r.offset data })
  | .cached r data =>
    let (request, readahead) := s.readahead.recordRead now.instant inode r.offset r.size
    (.returned (.ok data), { s with
      readahead := readahead
      spawned := s.spawned ++ (request.map fun q => ⟨r.obs, q⟩).toList })
  | .returned answer => (.returned answer, s)

/-- `prefetch_task` up to its request. -/
def beginPrefetch (s : ObsFsCore) (n : ℕ) (permit : Bool) (job : PrefetchJob) :
    PrefetchTask × ObsFsCore :=
  (if permit then .request job else .finished, { s with spawned := s.spawned.eraseIdx n })

def resumePrefetch (s : ObsFsCore) (now : Now) : PrefetchTask → PrefetchTask × ObsFsCore
  | .request job =>
    match s.obsClient.readRange job.path job.request.offset job.request.size with
    | (.ok data, cl) => (.fetched job data, { s with obsClient := cl })
    | (.error _, cl) => (.finished, { s with obsClient := cl })
  | .fetched job data =>
    (.finished, { s with
      readahead :=
        s.readahead.storePrefetched now.instant job.request.inode job.request.offset data })
  | .finished => (.finished, s)

/-- The next request or cache operation of `do_truncate(inode, 0)`. -/
def resumeTruncate (s : ObsFsCore) (now : Now) (inode : ℕ) :
    TruncateTask → TruncateTask × ObsFsCore
  | .pending =>
    match s.inodeMgr.getPath inode with
    | none => (.failed, s)
    | some path =>
      match s.writeBuffer.truncate s.obsClient now.instant inode (s.obsPath path) 0 with
      | (.ok _, wb, cl) => (.emptied, { s with writeBuffer := wb, obsClient := cl })
      | (_, wb, cl) => (.failed, { s with writeBuffer := wb, obsClient := cl })
  | .emptied => (.uncached, { s with dataCache := s.dataCache.invalidate inode })
  | .uncached => (.done, { s with readahead := s.readahead.invalidate inode })
  | .done => (.done, s)
  | .failed => (.failed, s)

end ObsFsCore

/-- The core, the reads and the prefetches so far, and the truncation. -/
structure FileRace where
  core : ObsFsCore
  reads : Table ℕ ReadTask
  prefetches : Table ℕ PrefetchTask
  truncation : TruncateTask

inductive FileStep where
  | beginRead (call : ℕ) (now : Now) (fh offset size : ℕ)
  | read (call : ℕ) (now : Now)
  | beginPrefetch (call n : ℕ) (permit : Bool)
  | prefetch (call : ℕ) (now : Now)
  | truncate (now : Now)

namespace FileRace

def start (core : ObsFsCore) : FileRace := ⟨core, ∅, ∅, .pending⟩

/-- A read changes to a task. -/
def putRead (s : FileRace) (call : ℕ) (r : ReadTask × ObsFsCore) : FileRace :=
  { s with core := r.2, reads := s.reads.insert call r.1 }

def putPrefetch (s : FileRace) (call : ℕ) (r : PrefetchTask × ObsFsCore) : FileRace :=
  { s with core := r.2, prefetches := s.prefetches.insert call r.1 }

def step (inode : ℕ) (s : FileRace) : FileStep → FileRace
  | .beginRead call now fh offset size =>
    match s.reads.lookup call with
    | some _ => s
    | none => s.putRead call (s.core.beginRead now inode fh offset size)
  | .read call now =>
    match s.reads.lookup call with
    | some task => s.putRead call (s.core.resumeRead now inode task)
    | none => s
  | .beginPrefetch call n permit =>
    match s.prefetches.lookup call, s.core.spawned[n]? with
    | none, some job => s.putPrefetch call (s.core.beginPrefetch n permit job)
    | _, _ => s
  | .prefetch call now =>
    match s.prefetches.lookup call with
    | some task => s.putPrefetch call (s.core.resumePrefetch now task)
    | none => s
  | .truncate now =>
    let (task, core) := s.core.resumeTruncate now inode s.truncation
    { s with core := core, truncation := task }

/-- No bytes arrive late: what a read puts in the data cache once the truncation has taken the
file out of it is empty, and so is what a prefetch stores after the truncation. -/
def InTime (inode : ℕ) (s : FileRace) : FileStep → Prop
  | .read call _ =>
    s.truncation.hasUncached = true → ∀ task ∈ AList.lookup call s.reads, task.brings = []
  | .prefetch call _ =>
    s.truncation.hasReturned = true →
      ∀ task ∈ AList.lookup call s.prefetches, task.brings inode = []
  | _ => True

instance decidableInTime (inode : ℕ) (s : FileRace) :
    (a : FileStep) → Decidable (s.InTime inode a)
  | .read .. => inferInstanceAs (Decidable (_ → ∀ task ∈ _, _))
  | .prefetch .. => inferInstanceAs (Decidable (_ → ∀ task ∈ _, _))
  | .beginRead .. | .beginPrefetch .. | .truncate _ => isTrue trivial

/-- Nothing is left of the file as it was: not in the data cache once the truncation has taken
the file out of it, nor for any read once the truncation has returned. -/
def NothingOld (inode : ℕ) (s : FileRace) : Prop :=
  (s.truncation.hasUncached = true →
    ∀ o data, (s.core.dataCache.get inode o).1 = some data → data = []) ∧
  (s.truncation.hasReturned = true →
    ∀ now fh offset size data, (s.core.doRead now inode fh offset size).1 = .ok data → data = [])

end FileRace

theorem WriteBuffer.truncate_zero {wb wb' : WriteBuffer} {cl cl' : ObsClient} {now : Instant}
    {inode : ℕ} {path : Str}
    (h : wb.truncate cl now inode path 0 = (.ok (), wb', cl')) :
    AList.lookup path cl'.objects = some [] := by
  unfold truncate at h
  cases hf : cl.fault with
  | some e =>
    rw [ObsClient.write_failed hf] at h
    simp at h
  | none =>
    rw [ObsClient.write_stored hf] at h
    simp only [if_true, Prod.mk.injEq] at h
    rw [← h.2.2, ObsClient.stored_lookup, if_pos rfl]

namespace ObsFsCore
variable {s s' : ObsFsCore} {inode : ℕ}

def NoBlock (s : ObsFsCore) (inode : ℕ) : Prop :=
  ∀ o data, s.dataCache.visible (s.dataCache.key inode o) = some data → data = []

/-- Neither tier keeps bytes of the file, whether or not the disk tier answers for them now. -/
def NoCopy (s : ObsFsCore) (inode : ℕ) : Prop :=
  ∀ o data, s.dataCache.Keeps (s.dataCache.key inode o) data → data = []

def NoPrefetched (s : ObsFsCore) (inode : ℕ) : Prop :=
  ∀ o entry, AList.lookup ⟨inode, o⟩ s.readahead.prefetchBuffer = some entry → entry.data = []

theorem NoCopy.noBlock (h : s.NoCopy inode) : s.NoBlock inode :=
  fun o data hd => h o data (DataCache.keeps_of_visible hd)

/-- What a step of a read or a prefetch leaves alone, and the bytes that it puts in the data
cache and among the prefetched data of the inode. -/
structure Fetches (inode : ℕ) (s s' : ObsFsCore) (block ahead : Bytes) : Prop where
  inodes : s'.inodeMgr = s.inodeMgr
  config : s'.config = s.config
  objects : s'.obsClient.objects = s.obsClient.objects
  wellFormed : s'.dataCache.WellFormed
  noCopy : s.NoCopy inode → block = [] → s'.NoCopy inode
  shown : s'.NoBlock inode → block = []
  noPrefetched : s.NoPrefetched inode → (s'.NoPrefetched inode ↔ ahead = [])

theorem NoCopy.keepsNoMore (h : s.NoCopy inode)
    (hless : s.dataCache.KeepsNoMore s'.dataCache) : s'.NoCopy inode := by
  intro o rest hrest
  rw [DataCache.key_congr hless.blockSize] at hrest
  obtain ⟨data, hdata, hleft⟩ := hless.keeps _ rest hrest
  exact hleft.eq_nil (h o data hdata)

theorem put_key (s : ObsFsCore) (inode o : ℕ) (data : Bytes) (o' : ℕ) :
    (s.dataCache.put inode o data).key inode o' = s.dataCache.key inode o' :=
  DataCache.key_congr (s.dataCache.putMemory_blockSize _ data) inode o'

theorem NoCopy.put (h : s.NoCopy inode) (hw : s.dataCache.WellFormed) (o : ℕ) :
    NoCopy { s with dataCache := s.dataCache.put inode o [] } inode := by
  intro o' rest hrest
  dsimp only at hrest
  rw [put_key] at hrest
  rcases DataCache.putMemory_keeps hw hrest with ⟨-, hnil⟩ | ⟨data, hdata, hleft⟩
  · exact hnil
  · exact hleft.eq_nil (h o' data hdata)

/-- What is put shows at once, since it is in memory. -/
theorem NoBlock.of_put {o : ℕ} {data : Bytes}
    (h : NoBlock { s with dataCache := s.dataCache.put inode o data } inode) : data = [] := by
  apply h o data
  dsimp only
  rw [put_key]
  exact s.dataCache.putMemory_stored _ data

theorem Fetches.quiet (hinodes : s'.inodeMgr = s.inodeMgr) (hconfig : s'.config = s.config)
    (hobjects : s'.obsClient.objects = s.obsClient.objects) (hw : s'.dataCache.WellFormed)
    (hcache : s.dataCache.KeepsNoMore s'.dataCache)
    (hahead : ∀ key entry, AList.lookup key s'.readahead.prefetchBuffer = some entry →
      AList.lookup key s.readahead.prefetchBuffer = some entry) :
    Fetches inode s s' [] [] where
  inodes := hinodes
  config := hconfig
  objects := hobjects
  wellFormed := hw
  noCopy h _ := h.keepsNoMore hcache
  shown _ := rfl
  noPrefetched h := iff_of_true (fun o entry he => h o entry (hahead _ _ he)) rfl

theorem Fetches.refl (hw : s.dataCache.WellFormed) : Fetches inode s s [] [] :=
  .quiet rfl rfl rfl hw (.refl _) fun _ _ h => h

theorem beginRead_fetches (hw : s.dataCache.WellFormed) (now : Now) (fh offset size : ℕ) :
    Fetches inode s (s.beginRead now inode fh offset size).2 [] [] := by
  unfold beginRead
  split
  · exact .refl hw
  · exact .quiet rfl rfl rfl hw (.refl _) fun _ _ h => h

theorem resumeRead_fetches (hw : s.dataCache.WellFormed) (now : Now) (task : ReadTask) :
    Fetches inode s (s.resumeRead now inode task).2 task.brings [] := by
  cases task with
  | prefetched r =>
    have hahead : ∀ key entry, AList.lookup key
        (s.readahead.getPrefetched now.instant inode r.offset).2.prefetchBuffer = some entry →
        AList.lookup key s.readahead.prefetchBuffer = some entry :=
      fun key entry h => s.readahead.getPrefetched_lookup now.instant inode r.offset h
    simp only [resumeRead]
    generalize s.readahead.getPrefetched now.instant inode r.offset = q at hahead
    obtain ⟨_ | data, readahead⟩ := q
    · exact .quiet rfl rfl rfl hw (.refl _) hahead
    · exact .quiet rfl rfl rfl hw (.refl _) hahead
  | dataCache r =>
    have hget := DataCache.get_keepsNoMore hw inode r.offset
    have hwell : (s.dataCache.get inode r.offset).2.WellFormed :=
      DataCache.get_kept DiskCache.wellFormed_kept hw inode r.offset
    simp only [resumeRead]
    generalize s.dataCache.get inode r.offset = q at hget hwell
    obtain ⟨_ | data, cache⟩ := q
    · exact .quiet rfl rfl rfl hwell hget fun _ _ h => h
    · dsimp only
      split
      · exact .quiet rfl rfl rfl hwell hget fun _ _ h => h
      · exact .quiet rfl rfl rfl hwell hget fun _ _ h => h
  | request r =>
    have hread := (s.obsClient.readRange_sameBucket r.obs r.offset r.size).objects
    simp only [resumeRead]
    generalize s.obsClient.readRange r.obs r.offset r.size = q at hread
    obtain ⟨_ | data, cl⟩ := q
    · exact .quiet rfl rfl hread hw (.refl _) fun _ _ h => h
    · exact .quiet rfl rfl hread hw (.refl _) fun _ _ h => h
  | fetched r data =>
    have hwell : (s.dataCache.put inode r.offset data).WellFormed :=
      DataCache.putMemory_kept DiskCache.wellFormed_kept hw _ data
    refine ⟨rfl, rfl, rfl, hwell, ?_, NoBlock.of_put, fun h => iff_of_true h rfl⟩
    rintro h rfl
    exact h.put hw r.offset
  | cached r data =>
    refine .quiet rfl rfl rfl hw (.refl _) ?_
    intro key entry h
    rw [← s.readahead.recordRead_prefetchBuffer now.instant inode r.offset r.size]
    exact h
  | returned answer => exact .refl hw

theorem beginPrefetch_fetches (hw : s.dataCache.WellFormed) (n : ℕ) (permit : Bool)
    (job : PrefetchJob) : Fetches inode s (s.beginPrefetch n permit job).2 [] [] :=
  .quiet rfl rfl rfl hw (.refl _) fun _ _ h => h

theorem NoPrefetched.stored (h : s.NoPrefetched inode) (now : Instant) (target offset : ℕ)
    (data : Bytes) :
    NoPrefetched { s with readahead := s.readahead.storePrefetched now target offset data } inode ↔
      (if target = inode then data else []) = [] := by
  unfold NoPrefetched ReadaheadManager.storePrefetched
  simp only [Table.lookup_insert_if]
  by_cases htarget : target = inode
  · rw [if_pos htarget, htarget]
    constructor
    · intro hnone
      exact hnone offset ⟨data, now⟩ (if_pos rfl)
    · intro hdata o entry he
      split at he
      · rw [← Option.some.inj he]
        exact hdata
      · exact h o entry he
  · rw [if_neg htarget]
    refine iff_of_true ?_ rfl
    intro o entry he
    rw [if_neg] at he
    · exact h o entry he
    · intro heq
      exact htarget (congrArg PrefetchKey.inode heq).symm

theorem resumePrefetch_fetches (hw : s.dataCache.WellFormed) (now : Now) (task : PrefetchTask) :
    Fetches inode s (s.resumePrefetch now task).2 [] (task.brings inode) := by
  cases task with
  | request job =>
    have hread := (s.obsClient.readRange_sameBucket job.path job.request.offset
      job.request.size).objects
    simp only [resumePrefetch]
    generalize s.obsClient.readRange job.path job.request.offset job.request.size = q at hread
    obtain ⟨_ | data, cl⟩ := q
    · exact .quiet rfl rfl hread hw (.refl _) fun _ _ h => h
    · exact .quiet rfl rfl hread hw (.refl _) fun _ _ h => h
  | fetched job data =>
    exact ⟨rfl, rfl, rfl, hw, fun h _ => h, fun _ => rfl,
      fun h => h.stored now.instant job.request.inode job.request.offset data⟩
  | finished => exact .refl hw

theorem readRange_empty {obs : Str}
    (hobject : AList.lookup obs s.obsClient.objects = some [])
    {offset size : ℕ} {data : Bytes} {cl : ObsClient}
    (h : s.obsClient.readRange obs offset size = (.ok data, cl)) : data = [] := by
  obtain ⟨content, hcontent, hdata⟩ := ObsClient.readRange_ok h
  cases hobject.symm.trans hcontent
  rw [hdata, List.drop_nil, List.take_nil]

/-- A file with an empty object has no byte to read exactly when nothing is left of it in the
data cache and among the prefetched data. -/
theorem reads_nothing_iff {path : Str} (hpath : s.inodeMgr.getPath inode = some path)
    (hobject : AList.lookup (s.obsPath path) s.obsClient.objects = some []) :
    (∀ now fh offset size data, (s.doRead now inode fh offset size).1 = .ok data → data = []) ↔
      s.NoBlock inode ∧ s.NoPrefetched inode := by
  constructor
  · intro h
    constructor
    · intro o data hd
      -- the block is read from its start, at a time at which no prefetched entry counts
      obtain ⟨t, ht⟩ := s.readahead.getPrefetched_expires inode (s.dataCache.key inode o).offset
      have hread := s.doRead_eq hpath ⟨t, 0⟩ 0 (s.dataCache.key inode o).offset data.length
      rw [ht] at hread
      by_contra hne
      rw [s.cachedAnswer_block hd hne] at hread
      exact hne (h _ _ _ _ _ (congrArg Prod.fst hread))
    · intro o entry he
      have hread := s.doRead_eq hpath ⟨entry.fetchedAt, 0⟩ 0 o entry.data.length
      have hfst : (s.readahead.getPrefetched entry.fetchedAt inode o).1 = some entry.data := by
        rw [ReadaheadManager.getPrefetched_fst]
        refine ⟨entry, he, ?_, rfl⟩
        unfold PrefetchedData.isExpired
        simp
      rw [hfst] at hread
      have hdata := h ⟨entry.fetchedAt, 0⟩ 0 o entry.data.length _ (congrArg Prod.fst hread)
      rw [min_self, List.take_length] at hdata
      exact hdata
  · intro h now fh offset size data hok
    obtain ⟨hblock, hahead⟩ := h
    rw [s.doRead_eq hpath] at hok
    cases hp : (s.readahead.getPrefetched now.instant inode offset).1 with
    | some d =>
      rw [hp] at hok
      obtain ⟨entry, he, -, hd⟩ := (ReadaheadManager.getPrefetched_fst ..).mp hp
      have hnil := hahead offset entry he
      rw [hd] at hnil
      rw [← Outcome.ok.inj hok, hnil, List.take_nil]
    | none =>
      rw [hp] at hok
      have hcached : s.cachedAnswer inode offset size = none := by
        unfold cachedAnswer
        cases hv : s.dataCache.visible (s.dataCache.key inode offset) with
        | none => rfl
        | some d =>
          rw [hblock offset d hv]
          simp
      rw [hcached] at hok
      simp only [readRemote] at hok
      split at hok
      · cases hok
      · next hread =>
        have hsame : AList.lookup (s.obsPath path)
            (s.askedCache now inode fh offset size).obsClient.objects = some [] := hobject
        rw [← Outcome.ok.inj hok]
        exact readRange_empty hsame hread

end ObsFsCore

theorem TruncateTask.hasEmptied_of_hasReturned {task : TruncateTask}
    (h : task.hasReturned = true) : task.hasEmptied = true := by
  cases task with
  | done => rfl
  | pending | emptied | uncached | failed => cases h

theorem TruncateTask.hasUncached_of_hasReturned {task : TruncateTask}
    (h : task.hasReturned = true) : task.hasUncached = true := by
  cases task with
  | done => rfl
  | pending | emptied | uncached | failed => cases h

namespace FileRace
variable {inode : ℕ} {s : FileRace}

/-- The object is empty from the request of the truncation on. -/
structure Emptied (inode : ℕ) (s : FileRace) : Prop where
  wellFormed : s.core.dataCache.WellFormed
  object : s.truncation.hasEmptied = true → ∃ path, s.core.inodeMgr.getPath inode = some path ∧
    AList.lookup (s.core.obsPath path) s.core.obsClient.objects = some []

/-- The caches show nothing of the file once they have been told to drop it. -/
def Dropped (inode : ℕ) (s : FileRace) : Prop :=
  (s.truncation.hasUncached = true → s.core.NoBlock inode) ∧
    (s.truncation.hasReturned = true → s.core.NoPrefetched inode)

/-- The caches keep nothing of the file once they have been told to drop it. -/
def Purged (inode : ℕ) (s : FileRace) : Prop :=
  (s.truncation.hasUncached = true → s.core.NoCopy inode) ∧
    (s.truncation.hasReturned = true → s.core.NoPrefetched inode)

theorem Purged.dropped (h : s.Purged inode) : s.Dropped inode :=
  ⟨fun hu => (h.1 hu).noBlock, h.2⟩

theorem Emptied.nothingOld_iff (h : s.Emptied inode) : s.NothingOld inode ↔ s.Dropped inode := by
  have hget : (∀ o data, (s.core.dataCache.get inode o).1 = some data → data = []) ↔
      s.core.NoBlock inode := by
    unfold ObsFsCore.NoBlock
    simp only [DataCache.get_fst]
  unfold NothingOld Dropped
  rw [hget]
  apply and_congr_right
  intro hblock
  constructor
  · intro hread hret
    obtain ⟨path, hpath, hobject⟩ := h.object (TruncateTask.hasEmptied_of_hasReturned hret)
    exact ((ObsFsCore.reads_nothing_iff hpath hobject).mp (hread hret)).2
  · intro hahead hret
    obtain ⟨path, hpath, hobject⟩ := h.object (TruncateTask.hasEmptied_of_hasReturned hret)
    exact (ObsFsCore.reads_nothing_iff hpath hobject).mpr
      ⟨hblock (TruncateTask.hasUncached_of_hasReturned hret), hahead hret⟩

/-- A step leaves the object empty; under the condition it keeps the caches purged, and if it
breaks the condition they show something of the file. -/
structure Accounts (inode : ℕ) (s s' : FileRace) (ok : Prop) : Prop where
  emptied : s'.Emptied inode
  purged : s.Purged inode → ok → s'.Purged inode
  shown : s.Purged inode → s'.Dropped inode → ok

theorem Accounts.congr {s' : FileRace} {p q : Prop} (h : Accounts inode s s' p) (hpq : p ↔ q) :
    Accounts inode s s' q :=
  ⟨h.emptied, fun hp hq => h.purged hp (hpq.mpr hq), fun hp hd => hpq.mp (h.shown hp hd)⟩

/-- What a step of a read or a prefetch puts in a cache too late is what shows. -/
theorem Emptied.fetches (h : s.Emptied inode) {core : ObsFsCore} {block ahead : Bytes}
    (hf : ObsFsCore.Fetches inode s.core core block ahead) (reads : Table ℕ ReadTask)
    (prefetches : Table ℕ PrefetchTask) :
    Accounts inode s ⟨core, reads, prefetches, s.truncation⟩
      ((s.truncation.hasUncached = true → block = []) ∧
        (s.truncation.hasReturned = true → ahead = [])) := by
  refine ⟨⟨hf.wellFormed, fun hempty => ?_⟩, fun hpurged hok => ?_, fun hpurged hdrop => ?_⟩
  · obtain ⟨path, hpath, hobject⟩ := h.object hempty
    refine ⟨path, ?_, ?_⟩
    · dsimp only
      rw [hf.inodes]
      exact hpath
    · dsimp only
      rw [ObsFsCore.obsPath_congr hf.config, hf.objects]
      exact hobject
  · refine ⟨fun hu => ?_, fun hr => ?_⟩
    · exact hf.noCopy (hpurged.1 hu) (hok.1 hu)
    · exact (hf.noPrefetched (hpurged.2 hr)).mpr (hok.2 hr)
  · refine ⟨fun hu => ?_, fun hr => ?_⟩
    · exact hf.shown (hdrop.1 hu)
    · exact (hf.noPrefetched (hpurged.2 hr)).mp (hdrop.2 hr)

theorem Emptied.truncate (h : s.Emptied inode) (now : Now) :
    (s.step inode (.truncate now)).Emptied inode ∧
      (s.Purged inode → (s.step inode (.truncate now)).Purged inode) := by
  obtain ⟨core, reads, prefetches, truncation⟩ := s
  unfold step ObsFsCore.resumeTruncate
  cases truncation with
  | pending =>
    have hfailed : ∀ core' : ObsFsCore, core'.dataCache = core.dataCache →
        Emptied inode ⟨core', reads, prefetches, .failed⟩ := by
      intro core' hcache
      refine ⟨?_, fun hno => nomatch hno⟩
      dsimp only
      rw [hcache]
      exact h.wellFormed
    have hvacant : ∀ (core' : ObsFsCore) (task : TruncateTask), task.hasUncached = false →
        Purged inode ⟨core', reads, prefetches, task⟩ := by
      intro core' task hno
      refine ⟨fun hu => absurd hu (by simp [hno]), fun hr => ?_⟩
      exact absurd (TruncateTask.hasUncached_of_hasReturned hr) (by simp [hno])
    dsimp only
    cases hpath : core.inodeMgr.getPath inode with
    | none => exact ⟨hfailed core rfl, fun _ => hvacant _ _ rfl⟩
    | some path =>
      dsimp only
      cases htr : core.writeBuffer.truncate core.obsClient now.instant inode
          (core.obsPath path) 0 with
      | mk r rest =>
        obtain ⟨wb, cl⟩ := rest
        cases r with
        | err e => exact ⟨hfailed _ rfl, fun _ => hvacant _ _ rfl⟩
        | loops => exact ⟨hfailed _ rfl, fun _ => hvacant _ _ rfl⟩
        | ok u =>
          refine ⟨⟨h.wellFormed, fun _ => ⟨path, hpath, ?_⟩⟩, fun _ => hvacant _ _ rfl⟩
          exact WriteBuffer.truncate_zero htr
  | emptied =>
    have hwell : (core.dataCache.invalidate inode).WellFormed :=
      DataCache.invalidate_kept DiskCache.wellFormed_kept h.wellFormed inode
    refine ⟨⟨hwell, h.object⟩, fun _ => ⟨fun _ => ?_, fun hr => nomatch hr⟩⟩
    exact fun o data hd => absurd hd (DataCache.invalidate_keeps_none h.wellFormed rfl data)
  | uncached =>
    refine ⟨⟨h.wellFormed, h.object⟩, fun hpurged => ⟨fun _ => hpurged.1 rfl, fun _ => ?_⟩⟩
    intro o entry he
    dsimp only at he
    rw [ReadaheadManager.invalidate_lookup, if_pos rfl] at he
    cases he
  | done => exact ⟨h, id⟩
  | failed => exact ⟨h, id⟩

/-- A step brings something back exactly when it is out of time. -/
theorem Emptied.step (h : s.Emptied inode) (a : FileStep) :
    Accounts inode s (s.step inode a) (s.InTime inode a) := by
  have hstay : ∀ {P : Prop}, P → Accounts inode s s P :=
    fun hp => ⟨h, fun hpurged _ => hpurged, fun _ _ => hp⟩
  have hquiet : ∀ {core : ObsFsCore}, ObsFsCore.Fetches inode s.core core [] [] → ∀ rs ps,
      Accounts inode s ⟨core, rs, ps, s.truncation⟩ True :=
    fun hf rs ps => (h.fetches hf rs ps).congr (by simp)
  cases a with
  | beginRead call now fh offset size =>
    simp only [FileRace.step]
    split
    · exact hstay trivial
    · exact hquiet (ObsFsCore.beginRead_fetches h.wellFormed now fh offset size) _ _
  | read call now =>
    simp only [FileRace.step, InTime]
    cases htask : AList.lookup call s.reads with
    | none => exact hstay fun _ task hnone => nomatch hnone
    | some task =>
      refine (h.fetches (ObsFsCore.resumeRead_fetches h.wellFormed now task)
        (s.reads.insert call (s.core.resumeRead now inode task).1) s.prefetches).congr ?_
      simp
  | beginPrefetch call n permit =>
    simp only [FileRace.step]
    split
    · exact hquiet (ObsFsCore.beginPrefetch_fetches h.wellFormed n permit _) _ _
    · exact hstay trivial
  | prefetch call now =>
    simp only [FileRace.step, InTime]
    cases htask : AList.lookup call s.prefetches with
    | none => exact hstay fun _ task hnone => nomatch hnone
    | some task =>
      refine (h.fetches (ObsFsCore.resumePrefetch_fetches h.wellFormed now task)
        s.reads (s.prefetches.insert call (s.core.resumePrefetch now task).1)).congr ?_
      simp
  | truncate now =>
    obtain ⟨hnext, hpurged⟩ := h.truncate now
    exact ⟨hnext, fun hp _ => hpurged hp, fun _ _ => trivial⟩

end FileRace

/-! ### Calls that are not interrupted -/

namespace ObsFsCore

/-- `k` steps of a read. -/
def resumeReads (now : Now) (inode : ℕ) : ℕ → ReadTask × ObsFsCore → ReadTask × ObsFsCore
  | 0, r => r
  | k + 1, r => resumeReads now inode k (r.2.resumeRead now inode r.1)

variable (s : ObsFsCore) (now : Now) (inode : ℕ)

theorem resumeReads_request (r : RangeRead) :
    resumeReads now inode 3 (.request r, s) =
      (.returned (s.readRemote now inode r.obs r.offset r.size).1,
        (s.readRemote now inode r.obs r.offset r.size).2) := by
  show resumeReads now inode 2 (s.resumeRead now inode (.request r)) = _
  simp only [resumeRead, readRemote]
  generalize s.obsClient.readRange r.obs r.offset r.size = q
  obtain ⟨_ | data, cl⟩ := q
  · rfl
  · rfl

theorem resumeReads_beginRead (fh offset size : ℕ) :
    resumeReads now inode 5 (s.beginRead now inode fh offset size) =
      (.returned (s.doRead now inode fh offset size).1,
        (s.doRead now inode fh offset size).2) := by
  unfold beginRead doRead
  cases s.inodeMgr.getPath inode with
  | none => rfl
  | some path =>
    dsimp only
    show resumeReads now inode 4 (resumeRead _ now inode (.prefetched _)) = _
    simp only [resumeRead]
    generalize s.readahead.getPrefetched now.instant inode offset = q
    obtain ⟨_ | data, readahead⟩ := q
    · show resumeReads now inode 3 (resumeRead _ now inode (.dataCache _)) = _
      simp only [resumeRead]
      generalize s.dataCache.get inode offset = q
      obtain ⟨_ | data, cache⟩ := q
      · exact resumeReads_request _ now inode _
      · dsimp only
        split
        · rfl
        · exact resumeReads_request _ now inode _
    · rfl

end ObsFsCore

namespace FileRace
variable {inode : ℕ} {s : FileRace} {call : ℕ}

theorem step_putRead (s : FileRace) (call : ℕ) (now : Now) (r : ReadTask × ObsFsCore) :
    (s.putRead call r).step inode (.read call now) =
      s.putRead call (r.2.resumeRead now inode r.1) := by
  have hcall : AList.lookup call (s.putRead call r).reads = some r.1 := AList.lookup_insert _
  have hput : ∀ r', (s.putRead call r).putRead call r' = s.putRead call r' := by
    intro r'
    unfold putRead
    rw [AList.insert_insert]
  simp only [step]
  rw [hcall]
  exact hput _

theorem step_putPrefetch (s : FileRace) (call : ℕ) (now : Now) (r : PrefetchTask × ObsFsCore) :
    (s.putPrefetch call r).step inode (.prefetch call now) =
      s.putPrefetch call (r.2.resumePrefetch now r.1) := by
  have hcall : AList.lookup call (s.putPrefetch call r).prefetches = some r.1 :=
    AList.lookup_insert _
  have hput : ∀ r', (s.putPrefetch call r).putPrefetch call r' = s.putPrefetch call r' := by
    intro r'
    unfold putPrefetch
    rw [AList.insert_insert]
  simp only [step]
  rw [hcall]
  exact hput _

theorem run_read (s : FileRace) (call : ℕ) (now : Now) (k : ℕ) (r : ReadTask × ObsFsCore) :
    run (step inode) (s.putRead call r) (List.replicate k (.read call now)) =
      s.putRead call (ObsFsCore.resumeReads now inode k r) := by
  induction k generalizing r with
  | zero => rfl
  | succ k ih =>
    rw [List.replicate_succ, run_cons, step_putRead]
    exact ih _

theorem uninterrupted_read (hfree : AList.lookup call s.reads = none) (now : Now)
    (fh offset size : ℕ) :
    run (step inode) s (.beginRead call now fh offset size :: List.replicate 5 (.read call now)) =
      s.putRead call (.returned (s.core.doRead now inode fh offset size).1,
        (s.core.doRead now inode fh offset size).2) := by
  have hbegin : s.step inode (.beginRead call now fh offset size) =
      s.putRead call (s.core.beginRead now inode fh offset size) := by
    simp only [step]
    rw [hfree]
  rw [run_cons, hbegin, run_read, s.core.resumeReads_beginRead]

theorem uninterrupted_prefetch (hfree : AList.lookup call s.prefetches = none) (now : Now)
    (n : ℕ) (permit : Bool) :
    (run (step inode) s
        [.beginPrefetch call n permit, .prefetch call now, .prefetch call now]).core =
      s.core.prefetchTask now n permit := by
  unfold ObsFsCore.prefetchTask
  rw [run_cons]
  cases hjob : s.core.spawned[n]? with
  | none =>
    have hbegin : s.step inode (.beginPrefetch call n permit) = s := by
      simp only [step]
      rw [hfree, hjob]
    have hnone : s.step inode (.prefetch call now) = s := by
      simp only [step]
      rw [hfree]
    rw [hbegin, run_cons, hnone, run_cons, hnone, run_nil]
  | some job =>
    have hbegin : s.step inode (.beginPrefetch call n permit) =
        s.putPrefetch call (s.core.beginPrefetch n permit job) := by
      simp only [step]
      rw [hfree, hjob]
    rw [hbegin, run_cons, step_putPrefetch, run_cons, step_putPrefetch, run_nil]
    unfold putPrefetch ObsFsCore.beginPrefetch ObsFsCore.resumePrefetch
    cases permit with
    | false => rfl
    | true =>
      dsimp only
      simp only [if_true, Bool.not_true, Bool.false_eq_true, if_false]
      generalize s.core.obsClient.readRange job.path job.request.offset job.request.size = q
      obtain ⟨_ | data, cl⟩ := q
      · rfl
      · rfl

theorem uninterrupted_truncate (hpending : s.truncation = .pending) (now : Now) :
    let s' := run (step inode) s [.truncate now, .truncate now, .truncate now]
    s'.core = (s.core.doTruncate now inode 0).2 ∧
      (s'.truncation = .done ↔ (s.core.doTruncate now inode 0).1 = .ok ()) := by
  obtain ⟨core, reads, prefetches, truncation⟩ := s
  dsimp only at hpending
  subst hpending
  dsimp only
  rw [run_cons, run_cons, run_cons, run_nil]
  unfold step ObsFsCore.resumeTruncate ObsFsCore.doTruncate
  cases hpath : core.inodeMgr.getPath inode with
  | none => exact ⟨rfl, iff_of_false nofun nofun⟩
  | some path =>
    dsimp only
    generalize core.writeBuffer.truncate core.obsClient now.instant inode (core.obsPath path) 0 = q
    obtain ⟨_ | _ | _, wb, cl⟩ := q
    · exact ⟨rfl, iff_of_true rfl rfl⟩
    · exact ⟨rfl, iff_of_false nofun nofun⟩
    · exact ⟨rfl, iff_of_false nofun nofun⟩

end FileRace

/-- Nothing of the old file comes back in any state of an interleaving exactly when no bytes
that a read or a prefetch was given arrive late at a cache. -/
theorem nothing_old_iff (inode : ℕ) {core : ObsFsCore} (hw : core.dataCache.WellFormed)
    (steps : List FileStep) :
    (∀ n, (run (FileRace.step inode) (.start core) (steps.take n)).NothingOld inode) ↔
      Along (FileRace.step inode) (FileRace.InTime inode) (.start core) steps := by
  have hstart : (FileRace.start core).Emptied inode := ⟨hw, fun hno => nomatch hno⟩
  have hpurged : (FileRace.start core).Purged inode := ⟨nofun, nofun⟩
  refine @forall_states_iff_along_through _ _ (FileRace.step inode) (fun _ _ => True)
    (FileRace.InTime inode) (fun s => s.Emptied inode ∧ s.Purged inode)
    (FileRace.NothingOld inode) ?_ ?_ ?_ _ steps (along_true _ _ steps) ⟨hstart, hpurged⟩
  · intro s h
    exact h.1.nothingOld_iff.mpr h.2.dropped
  · intro s a h _ hok
    exact ⟨(h.1.step a).emptied, (h.1.step a).purged h.2 hok⟩
  · intro s a h _ hold
    exact (h.1.step a).shown h.2 ((h.1.step a).emptied.nothingOld_iff.mp hold)

/-! ### Calls after the truncation -/

/-- The read is of the object, and what it has been given is empty. -/
def ReadTask.OnEmpty (obs : Str) : ReadTask → Prop
  | .prefetched r | .dataCache r | .request r => r.obs = obs
  | .fetched r data | .cached r data => r.obs = obs ∧ data = []
  | .returned _ => True

def PrefetchTask.OnEmpty (inode : ℕ) (obs : Str) : PrefetchTask → Prop
  | .request job => job.request.inode = inode → job.path = obs
  | .fetched job data => job.request.inode = inode → data = []
  | .finished => True

namespace ObsFsCore
variable {s : ObsFsCore} {obs : Str}

theorem resumeRead_onEmpty (hobject : AList.lookup obs s.obsClient.objects = some [])
    {task : ReadTask} (h : task.OnEmpty obs) (now : Now) (inode : ℕ) :
    (s.resumeRead now inode task).1.OnEmpty obs ∧
      ∀ job ∈ (s.resumeRead now inode task).2.spawned, job ∈ s.spawned ∨ job.path = obs := by
  cases task with
  | prefetched r =>
    simp only [resumeRead]
    split
    · exact ⟨trivial, fun _ hj => .inl hj⟩
    · exact ⟨h, fun _ hj => .inl hj⟩
  | dataCache r =>
    simp only [resumeRead]
    split
    · split
      · exact ⟨trivial, fun _ hj => .inl hj⟩
      · exact ⟨h, fun _ hj => .inl hj⟩
    · exact ⟨h, fun _ hj => .inl hj⟩
  | request r =>
    obtain rfl : r.obs = obs := h
    simp only [resumeRead]
    split
    · exact ⟨trivial, fun _ hj => .inl hj⟩
    · next hread => exact ⟨⟨rfl, readRange_empty hobject hread⟩, fun _ hj => .inl hj⟩
  | fetched r data => exact ⟨h, fun _ hj => .inl hj⟩
  | cached r data =>
    refine ⟨trivial, ?_⟩
    intro job hjob
    obtain hold | hnew := List.mem_append.mp hjob
    · exact .inl hold
    · obtain ⟨q, -, rfl⟩ := Option.map_eq_some_iff.mp (Option.mem_toList.mp hnew)
      exact .inr h.1
  | returned answer => exact ⟨trivial, fun _ hj => .inl hj⟩

theorem resumePrefetch_onEmpty (hobject : AList.lookup obs s.obsClient.objects = some [])
    {inode : ℕ} {task : PrefetchTask} (h : task.OnEmpty inode obs) (now : Now) :
    (s.resumePrefetch now task).1.OnEmpty inode obs ∧
      (s.resumePrefetch now task).2.spawned = s.spawned := by
  cases task with
  | request job =>
    simp only [resumePrefetch]
    split
    · next hread =>
      refine ⟨fun hi => ?_, rfl⟩
      rw [h hi] at hread
      exact readRange_empty hobject hread
    · exact ⟨trivial, rfl⟩
  | fetched job data => exact ⟨trivial, rfl⟩
  | finished => exact ⟨trivial, rfl⟩

end ObsFsCore

namespace FileRace
variable {inode : ℕ} {path : Str} {s : FileRace}

/-- The truncation has returned, and every call reads the empty object. -/
structure Settled (inode : ℕ) (path : Str) (s : FileRace) : Prop where
  returned : s.truncation = .done
  wellFormed : s.core.dataCache.WellFormed
  named : s.core.inodeMgr.getPath inode = some path
  object : AList.lookup (s.core.obsPath path) s.core.obsClient.objects = some []
  reads : ∀ call, ∀ task ∈ AList.lookup call s.reads, task.OnEmpty (s.core.obsPath path)
  prefetches : ∀ call, ∀ task ∈ AList.lookup call s.prefetches,
    task.OnEmpty inode (s.core.obsPath path)
  jobs : ∀ job ∈ s.core.spawned, job.request.inode = inode → job.path = s.core.obsPath path

theorem Settled.inTime (h : Settled inode path s) (a : FileStep) : s.InTime inode a := by
  cases a with
  | read call now =>
    intro _ task htask
    have hempty := h.reads call task htask
    cases task with
    | fetched r data => exact hempty.2
    | prefetched r | dataCache r | request r | cached r data | returned answer => rfl
  | prefetch call now =>
    intro _ task htask
    have hempty := h.prefetches call task htask
    cases task with
    | fetched job data =>
      show (if job.request.inode = inode then data else []) = []
      split
      · next hi => exact hempty hi
      · rfl
    | request job | finished => rfl
  | beginRead | beginPrefetch | truncate => trivial

theorem Settled.next (h : Settled inode path s) {core : ObsFsCore} {block ahead : Bytes}
    (hf : ObsFsCore.Fetches inode s.core core block ahead) {reads : Table ℕ ReadTask}
    {prefetches : Table ℕ PrefetchTask}
    (hreads : ∀ call, ∀ task ∈ AList.lookup call reads, task.OnEmpty (s.core.obsPath path))
    (hprefetches : ∀ call, ∀ task ∈ AList.lookup call prefetches,
      task.OnEmpty inode (s.core.obsPath path))
    (hjobs : ∀ job ∈ core.spawned, job ∈ s.core.spawned ∨ job.path = s.core.obsPath path) :
    Settled inode path ⟨core, reads, prefetches, s.truncation⟩ := by
  have hobs : core.obsPath path = s.core.obsPath path := ObsFsCore.obsPath_congr hf.config path
  constructor
  case returned => exact h.returned
  case wellFormed => exact hf.wellFormed
  case named =>
    dsimp only
    rw [hf.inodes]
    exact h.named
  case object =>
    dsimp only
    rw [hobs, hf.objects]
    exact h.object
  case reads =>
    dsimp only
    rw [hobs]
    exact hreads
  case prefetches =>
    dsimp only
    rw [hobs]
    exact hprefetches
  case jobs =>
    intro job hjob hi
    dsimp only
    rw [hobs]
    obtain hold | hnew := hjobs job hjob
    · exact h.jobs job hold hi
    · exact hnew

theorem Settled.step (h : Settled inode path s) (a : FileStep) :
    Settled inode path (s.step inode a) := by
  cases a with
  | beginRead call now fh offset size =>
    simp only [FileRace.step]
    split
    · exact h
    · refine h.next (ObsFsCore.beginRead_fetches h.wellFormed now fh offset size)
        (Table.forall_lookup_insert h.reads call ?_) h.prefetches ?_
      · unfold ObsFsCore.beginRead
        rw [h.named]
        rfl
      · unfold ObsFsCore.beginRead
        rw [h.named]
        exact fun _ hj => .inl hj
  | read call now =>
    simp only [FileRace.step]
    split
    · next task htask =>
      obtain ⟨hempty, hjobs⟩ := ObsFsCore.resumeRead_onEmpty h.object (h.reads call task htask)
        now inode
      exact h.next (ObsFsCore.resumeRead_fetches h.wellFormed now task)
        (Table.forall_lookup_insert h.reads call hempty) h.prefetches hjobs
    · exact h
  | beginPrefetch call n permit =>
    simp only [FileRace.step]
    split
    · next job _ hjob =>
      refine h.next (ObsFsCore.beginPrefetch_fetches h.wellFormed n permit job) h.reads
        (Table.forall_lookup_insert h.prefetches call ?_) ?_
      · have hpath := h.jobs job (List.mem_of_getElem? hjob)
        unfold ObsFsCore.beginPrefetch
        cases permit with
        | true => exact hpath
        | false => trivial
      · exact fun _ hj => .inl (List.mem_of_mem_eraseIdx hj)
    · exact h
  | prefetch call now =>
    simp only [FileRace.step]
    split
    · next task htask =>
      obtain ⟨hempty, hjobs⟩ := ObsFsCore.resumePrefetch_onEmpty h.object
        (h.prefetches call task htask) now
      refine h.next (ObsFsCore.resumePrefetch_fetches h.wellFormed now task) h.reads
        (Table.forall_lookup_insert h.prefetches call hempty) ?_
      rw [hjobs]
      exact fun _ hj => .inl hj
    · exact h
  | truncate now =>
    have hstay : s.step inode (.truncate now) = s := by
      obtain ⟨core, reads, prefetches, truncation⟩ := s
      obtain rfl : truncation = .done := h.returned
      rfl
    rw [hstay]
    exact h

theorem Settled.along (h : Settled inode path s) (later : List FileStep) :
    Along (FileRace.step inode) (InTime inode) s later := by
  induction later generalizing s with
  | nil => trivial
  | cons a later ih => exact ⟨h.inTime a, ih (h.step a)⟩

theorem Emptied.run (h : s.Emptied inode) (steps : List FileStep) :
    (Lib.run (FileRace.step inode) s steps).Emptied inode := by
  induction steps generalizing s with
  | nil => exact h
  | cons a steps ih => exact ih (h.step a).emptied

/-- Once the truncation and the calls beside it have returned, later calls are in time, if the
prefetches that wait for their turn are of the file's object. -/
theorem later_calls_in_time {core : ObsFsCore} (hw : core.dataCache.WellFormed)
    {steps : List FileStep} (hs : Lib.run (FileRace.step inode) (.start core) steps = s)
    (hdone : s.truncation = .done)
    (hreads : ∀ call, ∀ task ∈ AList.lookup call s.reads, ∃ answer, task = .returned answer)
    (hprefetches : ∀ call, ∀ task ∈ AList.lookup call s.prefetches, task = .finished)
    (hjobs : ∀ path ∈ s.core.inodeMgr.getPath inode, ∀ job ∈ s.core.spawned,
      job.request.inode = inode → job.path = s.core.obsPath path) (later : List FileStep) :
    Along (FileRace.step inode) (InTime inode) s later := by
  have hstart : (FileRace.start core).Emptied inode := ⟨hw, nofun⟩
  have hempty := hstart.run steps
  rw [hs] at hempty
  obtain ⟨path, hpath, hobject⟩ := hempty.object (by rw [hdone]; rfl)
  have hsettled : Settled inode path s := by
    refine ⟨hdone, hempty.wellFormed, hpath, hobject, ?_, ?_, hjobs path hpath⟩
    · intro call task htask
      obtain ⟨answer, rfl⟩ := hreads call task htask
      trivial
    · intro call task htask
      rw [hprefetches call task htask]
      trivial
  exact hsettled.along later

end FileRace

/-- The answer of the storage is cached before the truncation drops it. -/
theorem dropped_answer_stays_away :
    (run (FileRace.step 2) (.start (.oneFile .basic Config.basic_valid [1, 2, 3]))
      ([.beginRead 0 ⟨1, 1⟩ 1 0 3, .read 0 ⟨1, 1⟩, .read 0 ⟨1, 1⟩, .read 0 ⟨1, 1⟩,
        .truncate ⟨1, 1⟩, .read 0 ⟨2, 2⟩, .truncate ⟨2, 2⟩, .read 0 ⟨2, 2⟩, .truncate ⟨2, 2⟩,
        .beginRead 1 ⟨3, 3⟩ 1 0 3, .read 1 ⟨3, 3⟩, .read 1 ⟨3, 3⟩, .read 1 ⟨3, 3⟩,
        .read 1 ⟨3, 3⟩, .read 1 ⟨3, 3⟩].take 15)).NothingOld 2 :=
  (nothing_old_iff 2 (ObsFsCore.mounted_wellFormed .basic Config.basic_valid _
    [.lookup ⟨0, 0⟩ 1 ['f'.toUInt8]]) _).mpr (by decide) 15

/-- The read puts its answer in the data cache when the truncation has returned: the file is
empty, and the next read has its old bytes. -/
theorem late_answer_is_read :
    let s := run (FileRace.step 2) (.start (.oneFile .basic Config.basic_valid [1, 2, 3]))
      [.beginRead 0 ⟨1, 1⟩ 1 0 3, .read 0 ⟨1, 1⟩, .read 0 ⟨1, 1⟩, .read 0 ⟨1, 1⟩,
        .truncate ⟨1, 1⟩, .truncate ⟨1, 1⟩, .truncate ⟨1, 1⟩, .read 0 ⟨2, 2⟩, .read 0 ⟨2, 2⟩]
    AList.lookup 0 s.reads = some (.returned (.ok [1, 2, 3])) ∧ s.truncation = .done ∧
      AList.lookup ['f'] s.core.obsClient.objects = some [] ∧
      (s.core.doRead ⟨3, 3⟩ 2 1 0 3).1 = .ok [1, 2, 3] ∧ ¬s.NothingOld 2 := by
  refine ⟨by rfl, by rfl, by decide, by decide, ?_⟩
  intro h
  have hread := h.2 (by rfl) ⟨3, 3⟩ 1 0 3 [1, 2, 3] (by decide)
  cases hread

end ObsFuse
