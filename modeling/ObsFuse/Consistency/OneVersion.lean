import ObsFuse.Cache.BlockSources
import ObsFuse.Consistency.PrefetchedReads
import ObsFuse.Fs.Events

/-! # The version that a read is answered from

Other clients may replace an object at any time, and both caches keep bytes of the versions that
they saw. The bytes of one answer still come from one version, whichever way they took. -/

namespace ObsFuse
open Lib

namespace ObsFsCore

/-! ### Blocks -/

/-- The operation is a read that gets the bytes of the block from an object of its file. -/
def Fills (s : ObsFsCore) (op : FsOp) (key : BlockKey) (data : Bytes) : Prop :=
  ∃ now inode fh offset size path content, op = .read now inode fh offset size ∧
    s.inodeMgr.getPath inode = some path ∧
    AList.lookup (s.obsPath path) s.obsClient.objects = some content ∧
    key = s.dataCache.key inode offset ∧ data = (content.drop offset).take size

/-- The cache `c` keeps at most what is left of what the state's cache keeps, and what the
operation fills. -/
structure KeepsOrFills (s : ObsFsCore) (op : FsOp) (c : DataCache) : Prop where
  blockSize : c.blockSize = s.dataCache.blockSize
  faithful : s.dataCache.Faithful → c.Faithful
  keeps : ∀ key rest, c.Keeps key rest →
    (∃ data, s.dataCache.Keeps key data ∧ s.dataCache.Leaves data rest) ∨ s.Fills op key rest

theorem KeepsOrFills.of_keepsNoMore {s : ObsFsCore} {op : FsOp} {c : DataCache}
    (h : s.dataCache.KeepsNoMore c) : s.KeepsOrFills op c :=
  ⟨h.blockSize, h.faithful, fun key rest hk => .inl (h.keeps key rest hk)⟩

theorem doRead_keeps {s : ObsFsCore} (hw : s.dataCache.WellFormed) (now : Now)
    (inode fh offset size : ℕ) :
    s.KeepsOrFills (.read now inode fh offset size)
      (s.doRead now inode fh offset size).2.dataCache := by
  have hget := DataCache.get_keepsNoMore hw inode offset
  have hwell : (s.dataCache.get inode offset).2.WellFormed :=
    DataCache.get_kept DiskCache.wellFormed_kept hw inode offset
  cases hpath : s.inodeMgr.getPath inode with
  | none =>
    unfold doRead
    rw [hpath]
    exact .of_keepsNoMore (.refl _)
  | some path =>
    rw [s.doRead_eq hpath]
    split
    · exact .of_keepsNoMore (.refl _)
    · split
      · exact .of_keepsNoMore hget
      · unfold readRemote
        split
        · exact .of_keepsNoMore hget
        · next found cl hfound =>
          obtain ⟨content, hcontent, hdata⟩ := ObsClient.readRange_ok hfound
          have hsize := (s.dataCache.get inode offset).2.putMemory_blockSize
            ((s.dataCache.get inode offset).2.key inode offset) found
          refine ⟨hsize.trans hget.blockSize, fun hf =>
            DataCache.putMemory_kept DiskCache.faithful_kept (hget.faithful hf) _ _, ?_⟩
          intro key rest hk
          rcases DataCache.putMemory_keeps hwell hk with ⟨hkey, hd⟩ | ⟨data, hold, hleft⟩
          · right
            refine ⟨now, inode, fh, offset, size, path, content, rfl, hpath, hcontent, ?_,
              hd.trans hdata⟩
            rw [hkey]
            exact DataCache.key_congr hget.blockSize inode offset
          · exact .inl (hget.keeps_left hold hleft)

theorem step_keeps {s : ObsFsCore} (hw : s.dataCache.WellFormed) (op : FsOp) :
    s.KeepsOrFills op (s.step op).dataCache := by
  have hless : s.dataCache.KeepsNoMore (s.step op).dataCache →
      s.KeepsOrFills op (s.step op).dataCache := .of_keepsNoMore
  cases hop : op.touchesReads with
  | false =>
    apply hless
    rw [(step_sameReads hop s).dataCache]
    exact .refl _
  | true =>
    cases op with
    | read now inode fh offset size => exact doRead_keeps hw now inode fh offset size
    | write now inode fh offset data =>
      apply hless
      simp only [step, doWrite]
      split
      · exact .refl _
      · split
        · exact .refl _
        · exact .refl _
        · exact s.dataCache.invalidateRange_keepsNoMore ..
    | unlink parent name =>
      apply hless
      simp only [step, doUnlink]
      split
      · exact .refl _
      · split
        · exact .refl _
        · split
          · exact DataCache.invalidate_keepsNoMore hw _
          · exact .refl _
    | truncate now inode size =>
      apply hless
      simp only [step, doTruncate]
      split
      · exact .refl _
      · split
        · exact DataCache.invalidate_keepsNoMore hw _
        · exact .refl _
        · exact .refl _
    | prefetch now n permit =>
      apply hless
      simp only [step, prefetchTask]
      split
      · exact .refl _
      · split
        · exact .refl _
        · split
          · exact .refl _
          · exact .refl _
    | _ => cases hop

/-! ### Prefetched windows -/

/-- The operation is a read of the file that spawns the job for its object. -/
def Spawns (s : ObsFsCore) (op : FsOp) (job : PrefetchJob) : Prop :=
  ∃ now fh offset size path, op = .read now job.request.inode fh offset size ∧
    s.inodeMgr.getPath job.request.inode = some path ∧ job.path = s.obsPath path

theorem recordRead_inode {m : ReadaheadManager} {now : Instant} {inode offset size : ℕ}
    {request : PrefetchRequest} (h : (m.recordRead now inode offset size).1 = some request) :
    request.inode = inode := by
  unfold ReadaheadManager.recordRead at h
  split at h
  · cases h
  · dsimp only at h
    split at h
    · split at h
      · cases h
        rfl
      · cases h
    · cases h

theorem doRead_spawned {s : ObsFsCore} {now : Now} {inode fh offset size : ℕ} {job : PrefetchJob}
    (h : job ∈ (s.doRead now inode fh offset size).2.spawned) :
    job ∈ s.spawned ∨ s.Spawns (.read now inode fh offset size) job := by
  cases hpath : s.inodeMgr.getPath inode with
  | none =>
    unfold doRead at h
    rw [hpath] at h
    exact .inl h
  | some path =>
    rw [s.doRead_eq hpath] at h
    split at h
    · exact .inl h
    · split at h
      · exact .inl h
      · unfold readRemote at h
        split at h
        · exact .inl h
        · rcases List.mem_append.mp h with hold | hnew
          · exact .inl hold
          · right
            obtain ⟨request, hrequest, hjob⟩ :=
              Option.map_eq_some_iff.mp (Option.mem_toList.mp hnew)
            have hinode : job.request.inode = inode := by
              rw [← hjob]
              exact recordRead_inode hrequest
            have hobs : job.path = s.obsPath path := by rw [← hjob]
            refine ⟨now, fh, offset, size, path, ?_, ?_, hobs⟩
            · rw [hinode]
            · rw [hinode]
              exact hpath

theorem step_spawned {s : ObsFsCore} {op : FsOp} {job : PrefetchJob}
    (h : job ∈ (s.step op).spawned) : job ∈ s.spawned ∨ s.Spawns op job := by
  cases hop : op.touchesReads with
  | false =>
    rw [(step_sameReads hop s).spawned] at h
    exact .inl h
  | true =>
    revert h
    cases op with
    | read now inode fh offset size => exact doRead_spawned
    | write now inode fh offset data =>
      simp only [step, doWrite]
      split
      · exact .inl
      · split
        · exact .inl
        · exact .inl
        · exact .inl
    | unlink parent name =>
      simp only [step, doUnlink]
      split
      · exact .inl
      · split
        · exact .inl
        · split
          · exact .inl
          · exact .inl
    | truncate now inode size =>
      simp only [step, doTruncate]
      split
      · exact .inl
      · split
        · exact .inl
        · exact .inl
        · exact .inl
    | prefetch now n permit => exact fun h => .inl (prefetchTask_spawned h)
    | _ => cases hop

/-- The operation is a prefetch that gets the bytes of the entry from the object of its job. -/
def Prefetches (s : ObsFsCore) (op : FsOp) (key : PrefetchKey) (entry : PrefetchedData) : Prop :=
  ∃ now n permit job content, op = .prefetch now n permit ∧ job ∈ s.spawned ∧
    key = ⟨job.request.inode, job.request.offset⟩ ∧
    AList.lookup job.path s.obsClient.objects = some content ∧
    entry = ⟨(content.drop job.request.offset).take job.request.size, now.instant⟩

theorem prefetchTask_entries {s : ObsFsCore} {now : Now} {n : ℕ} {permit : Bool}
    {key : PrefetchKey} {entry : PrefetchedData}
    (h : AList.lookup key (s.prefetchTask now n permit).readahead.prefetchBuffer = some entry) :
    AList.lookup key s.readahead.prefetchBuffer = some entry ∨
      s.Prefetches (.prefetch now n permit) key entry := by
  revert h
  unfold prefetchTask
  split
  · exact .inl
  · next job hjob =>
    dsimp only
    split
    · exact .inl
    · split
      · next data cl hread =>
        intro h
        obtain ⟨content, hcontent, hdata⟩ := ObsClient.readRange_ok hread
        simp only [ReadaheadManager.storePrefetched] at h
        rw [Table.lookup_insert_if] at h
        split at h
        · next hkey =>
          right
          refine ⟨now, n, permit, job, content, rfl, List.mem_of_getElem? hjob, hkey, hcontent, ?_⟩
          rw [← hdata]
          exact (Option.some.inj h).symm
        · exact .inl h
      · exact .inl

theorem step_entries {s : ObsFsCore} {op : FsOp} {key : PrefetchKey} {entry : PrefetchedData}
    (h : AList.lookup key (s.step op).readahead.prefetchBuffer = some entry) :
    AList.lookup key s.readahead.prefetchBuffer = some entry ∨ s.Prefetches op key entry := by
  by_cases hop : ∃ now n permit, op = .prefetch now n permit
  · obtain ⟨now, n, permit, rfl⟩ := hop
    exact prefetchTask_entries h
  · have hother : ∀ now n permit, op ≠ .prefetch now n permit :=
      fun now n permit heq => hop ⟨now, n, permit, heq⟩
    exact .inl ((s.step_addsNoEntry hother).entries key entry h)

theorem step_readaheadConfig (s : ObsFsCore) (op : FsOp) :
    (s.step op).readahead.config = s.readahead.config := by
  by_cases hop : ∃ now n permit, op = .prefetch now n permit
  · obtain ⟨now, n, permit, rfl⟩ := hop
    rw [step]
    rcases s.prefetchTask_cases now n permit with ⟨-, hsame⟩ | ⟨job, -, key, content, -, hstore⟩
    · rw [hsame]
    · rw [hstore]
      rfl
  · have hother : ∀ now n permit, op ≠ .prefetch now n permit :=
      fun now n permit heq => hop ⟨now, n, permit, heq⟩
    exact (s.step_addsNoEntry hother).config

/-! ### Runs -/

/-- What every event keeps of the two caches: the disk tier is sound, its file operations do not
begin to fail, and the block size and the age at which prefetched bytes lapse are those of the
first state. -/
structure CachesOf (s₀ s : ObsFsCore) : Prop where
  wellFormed : s.dataCache.WellFormed
  faithful : s₀.dataCache.Faithful → s.dataCache.Faithful
  blockSize : s.dataCache.blockSize = s₀.dataCache.blockSize
  readahead : s.readahead.config = s₀.readahead.config

theorem CachesOf.event {s₀ s : ObsFsCore} (h : CachesOf s₀ s) (ev : CoreEvent) :
    CachesOf s₀ (s.event ev) := by
  cases ev with
  | op op =>
    have hkeeps := step_keeps h.wellFormed op
    exact ⟨step_wellFormed h.wellFormed op, fun hf => hkeeps.faithful (h.faithful hf),
      hkeeps.blockSize.trans h.blockSize, (s.step_readaheadConfig op).trans h.readahead⟩
  | cacheGet now inode => exact ⟨h.wellFormed, h.faithful, h.blockSize, h.readahead⟩
  | cachePut now inode attr => exact ⟨h.wellFormed, h.faithful, h.blockSize, h.readahead⟩
  | foreign objects => exact ⟨h.wellFormed, h.faithful, h.blockSize, h.readahead⟩

/-- The key was that of a path of the inode at some moment of the run. -/
def OnceNamed (s₀ : ObsFsCore) (evs : List CoreEvent) (inode : ℕ) (key : Str) : Prop :=
  ∃ n ≤ evs.length, ∃ path, (run event s₀ (evs.take n)).inodeMgr.getPath inode = some path ∧
    key = (run event s₀ (evs.take n)).obsPath path

theorem OnceNamed.append {s₀ : ObsFsCore} {evs : List CoreEvent} {inode : ℕ} {key : Str}
    (h : OnceNamed s₀ evs inode key) (last : List CoreEvent) :
    OnceNamed s₀ (evs ++ last) inode key := by
  obtain ⟨n, hn, path, hpath, hkey⟩ := h
  refine ⟨n, ?_, path, ?_⟩
  · rw [List.length_append]
    exact Nat.le_add_right_of_le hn
  · rw [List.take_append_of_le_length hn]
    exact ⟨hpath, hkey⟩

theorem OnceNamed.of_take {s₀ : ObsFsCore} {evs : List CoreEvent} {n inode : ℕ} {key : Str}
    (h : OnceNamed s₀ (evs.take n) inode key) : OnceNamed s₀ evs inode key := by
  rw [← List.take_append_drop n evs]
  exact h.append (evs.drop n)

/-- How a read at `now` of the range, after the events, is answered from a content of an object:
that of the storage now; one from which a prefetch took a window from the offset on, that has
not lapsed; or one from which an earlier read took the block of the offset, of which the cache
has kept the beginning at least, and all if no file operation fails. The bytes of a block count
from its start on, wherever that read began. -/
inductive AnsweredFrom (s₀ : ObsFsCore) (evs : List CoreEvent) (now : Now)
    (inode offset size : ℕ) (key : Str) (content : Bytes) : Bytes → Prop
  | storage (hobject : AList.lookup key (run event s₀ evs).obsClient.objects = some content) :
    AnsweredFrom s₀ evs now inode offset size key content ((content.drop offset).take size)
  | window {time : Now} {n k : ℕ} {permit : Bool} {job : PrefetchJob}
    (hev : evs[n]? = some (.op (.prefetch time k permit)))
    (hjob : job ∈ (run event s₀ (evs.take n)).spawned)
    (hrange : job.request.inode = inode ∧ job.request.offset = offset)
    (hobject : AList.lookup key (run event s₀ (evs.take n)).obsClient.objects = some content)
    (hage : now.instant ≤ time.instant + s₀.readahead.config.prefetchTtl) :
    AnsweredFrom s₀ evs now inode offset size key content
      (((content.drop offset).take job.request.size).take size)
  | block {time : Now} {n fh start len kept : ℕ}
    (hev : evs[n]? = some (.op (.read time inode fh start len)))
    (hblock : start / s₀.dataCache.blockSize = offset / s₀.dataCache.blockSize)
    (hobject : AList.lookup key (run event s₀ (evs.take n)).obsClient.objects = some content)
    (hkept : kept ≤ len) (hwhole : s₀.dataCache.Faithful → kept = len) :
    AnsweredFrom s₀ evs now inode offset size key content
      ((((content.drop start).take kept).drop (offset % s₀.dataCache.blockSize)).take size)

/-- The bytes are consecutive bytes of the content, no more than asked for. -/
theorem AnsweredFrom.isInfix {s₀ : ObsFsCore} {evs : List CoreEvent} {now : Now}
    {inode offset size : ℕ} {key : Str} {content data : Bytes}
    (h : s₀.AnsweredFrom evs now inode offset size key content data) :
    data.length ≤ size ∧ data <:+: content := by
  cases h with
  | storage =>
    refine ⟨List.length_take_le .., ?_⟩
    exact (List.take_prefix ..).isInfix.trans (List.drop_suffix ..).isInfix
  | window =>
    refine ⟨List.length_take_le .., ?_⟩
    exact ((List.take_prefix ..).trans (List.take_prefix ..)).isInfix.trans
      (List.drop_suffix ..).isInfix
  | block =>
    refine ⟨List.length_take_le .., ?_⟩
    exact ((List.take_prefix ..).isInfix.trans (List.drop_suffix ..).isInfix).trans
      ((List.take_prefix ..).isInfix.trans (List.drop_suffix ..).isInfix)

theorem spawned_origin {s₀ : ObsFsCore} (hnone : s₀.spawned = []) {evs : List CoreEvent}
    {job : PrefetchJob} (h : job ∈ (run event s₀ evs).spawned) :
    ∃ n op, evs[n]? = some (.op op) ∧ (run event s₀ (evs.take n)).Spawns op job := by
  have hstep : ∀ (s : ObsFsCore) ev, True → job ∈ (s.event ev).spawned →
      job ∈ s.spawned ∨ ∃ op, ev = .op op ∧ s.Spawns op job := by
    intro s ev _ hjob
    cases ev with
    | op op => exact (step_spawned hjob).imp_right fun hs => ⟨op, rfl, hs⟩
    | cacheGet now inode => exact .inl hjob
    | cachePut now inode attr => exact .inl hjob
    | foreign objects => exact .inl hjob
  have horigin := @run_origin _ _ event (fun _ => True) (fun s => job ∈ s.spawned)
    (fun s ev => ∃ op, ev = .op op ∧ s.Spawns op job) (fun _ _ _ => trivial) hstep s₀ trivial evs h
  rcases horigin with hstart | ⟨n, ev, hev, op, rfl, hspawns⟩
  · rw [hnone] at hstart
    cases hstart
  · exact ⟨n, op, hev, hspawns⟩

theorem spawned_named {s₀ : ObsFsCore} (hnone : s₀.spawned = []) {evs : List CoreEvent}
    {job : PrefetchJob} (h : job ∈ (run event s₀ evs).spawned) :
    OnceNamed s₀ evs job.request.inode job.path := by
  obtain ⟨n, op, hev, -, -, -, -, path, -, hpath, hkey⟩ := spawned_origin hnone h
  exact ⟨n, Nat.le_of_lt (List.getElem?_eq_some_iff.mp hev).1, path, hpath, hkey⟩

theorem prefetched_origin {s₀ : ObsFsCore} (hempty : s₀.readahead.prefetchBuffer = ∅)
    {evs : List CoreEvent} {key : PrefetchKey} {entry : PrefetchedData}
    (h : AList.lookup key (run event s₀ evs).readahead.prefetchBuffer = some entry) :
    ∃ n op, evs[n]? = some (.op op) ∧ (run event s₀ (evs.take n)).Prefetches op key entry := by
  have hstep : ∀ (s : ObsFsCore) ev, True →
      AList.lookup key (s.event ev).readahead.prefetchBuffer = some entry →
      AList.lookup key s.readahead.prefetchBuffer = some entry ∨
        ∃ op, ev = .op op ∧ s.Prefetches op key entry := by
    intro s ev _ hc
    cases ev with
    | op op => exact (step_entries hc).imp_right fun hs => ⟨op, rfl, hs⟩
    | cacheGet now inode => exact .inl hc
    | cachePut now inode attr => exact .inl hc
    | foreign objects => exact .inl hc
  have horigin := @run_origin _ _ event (fun _ => True)
    (fun s => AList.lookup key s.readahead.prefetchBuffer = some entry)
    (fun s ev => ∃ op, ev = .op op ∧ s.Prefetches op key entry) (fun _ _ _ => trivial) hstep s₀
    trivial evs h
  rcases horigin with hstart | ⟨n, ev, hev, op, rfl, hprefetch⟩
  · rw [hempty] at hstart
    cases hstart
  · exact ⟨n, op, hev, hprefetch⟩

theorem event_cachesOf (s₀ s : ObsFsCore) (ev : CoreEvent) (h : CachesOf s₀ s) :
    CachesOf s₀ (s.event ev) := h.event ev

/-- The cache keeps bytes of the block of which these may be left. -/
def KeepsSource (s₀ : ObsFsCore) (key : BlockKey) (rest : Bytes) (s : ObsFsCore) : Prop :=
  ∃ data, s.dataCache.Keeps key data ∧ s₀.dataCache.Leaves data rest

/-- The event fills the block with bytes of which these may be left. -/
def FillsSource (s₀ : ObsFsCore) (key : BlockKey) (rest : Bytes) (s : ObsFsCore)
    (ev : CoreEvent) : Prop :=
  ∃ op data, ev = .op op ∧ s.Fills op key data ∧ s₀.dataCache.Leaves data rest

theorem event_keepsSource {s₀ s : ObsFsCore} {key : BlockKey} {rest : Bytes} (ev : CoreEvent)
    (hs : CachesOf s₀ s) (h : KeepsSource s₀ key rest (s.event ev)) :
    KeepsSource s₀ key rest s ∨ FillsSource s₀ key rest s ev := by
  obtain ⟨data, hdata, hleft⟩ := h
  cases ev with
  | op op =>
    rcases (step_keeps hs.wellFormed op).keeps key data hdata with ⟨d, hd, hold⟩ | hfills
    · refine .inl ⟨d, hd, hleft.isPrefix.trans hold.isPrefix, fun hf => ?_⟩
      rw [hleft.whole hf, hold.whole (hs.faithful hf)]
    · exact .inr ⟨op, data, rfl, hfills, hleft⟩
  | cacheGet now inode => exact .inl ⟨data, hdata, hleft⟩
  | cachePut now inode attr => exact .inl ⟨data, hdata, hleft⟩
  | foreign objects => exact .inl ⟨data, hdata, hleft⟩

/-- Each block of a cache that was cold was filled by a read, or is what is left of one that was. -/
theorem keeps_origin {s₀ : ObsFsCore} (hempty : ∀ key data, ¬s₀.dataCache.Keeps key data)
    (hw : s₀.dataCache.WellFormed) {evs : List CoreEvent} {key : BlockKey} {block : Bytes}
    (h : (run event s₀ evs).dataCache.Keeps key block) :
    ∃ n op data, evs[n]? = some (.op op) ∧ (run event s₀ (evs.take n)).Fills op key data ∧
      s₀.dataCache.Leaves data block := by
  have horigin := @run_origin _ _ event (CachesOf s₀) (KeepsSource s₀ key block)
    (FillsSource s₀ key block) (event_cachesOf s₀) (fun _ ev => event_keepsSource ev) s₀
    ⟨hw, id, rfl, rfl⟩ evs ⟨block, h, .refl _ block⟩
  rcases horigin with ⟨data, hdata, -⟩ | ⟨n, ev, hev, op, data, rfl, hfills, hleft⟩
  · exact absurd hdata (hempty _ _)
  · exact ⟨n, op, data, hev, hfills, hleft⟩

theorem prefetched_fed {s₀ : ObsFsCore} (hempty : s₀.readahead.prefetchBuffer = ∅)
    (hnone : s₀.spawned = []) (hw : s₀.dataCache.WellFormed) {evs : List CoreEvent} {now : Now}
    {inode offset : ℕ} {data : Bytes} (size : ℕ)
    (h : ((run event s₀ evs).readahead.getPrefetched now.instant inode offset).1 = some data) :
    ∃ key content, s₀.AnsweredFrom evs now inode offset size key content
      (data.take (min size data.length)) ∧ OnceNamed s₀ evs inode key := by
  obtain ⟨entry, hentry, hlive, hdata⟩ := (ReadaheadManager.getPrefetched_fst ..).mp h
  obtain ⟨n, op, hev, time, k, permit, job, content, rfl, hjob, hkey, hcontent, hfetched⟩ :=
    prefetched_origin hempty hentry
  have hinode : job.request.inode = inode := (congrArg PrefetchKey.inode hkey).symm
  have hoffset : job.request.offset = offset := (congrArg PrefetchKey.offset hkey).symm
  have hnamed : OnceNamed s₀ evs inode job.path := by
    rw [← hinode]
    exact (spawned_named hnone hjob).of_take
  have hnow := (run_kept (event_cachesOf s₀) ⟨hw, id, rfl, rfl⟩ evs).readahead
  have hage : now.instant ≤ time.instant + s₀.readahead.config.prefetchTtl := by
    unfold PrefetchedData.isExpired at hlive
    rw [decide_eq_false_iff_not, hnow, hfetched] at hlive
    exact Nat.sub_le_iff_le_add'.mp (Nat.not_lt.mp hlive)
  refine ⟨job.path, content, ?_, hnamed⟩
  rw [← hdata, hfetched, hoffset, ← List.take_eq_take_min]
  exact .window hev hjob ⟨hinode, hoffset⟩ hcontent hage

theorem cachedAnswer_some {s : ObsFsCore} {inode offset size : ℕ} {data : Bytes}
    (h : s.cachedAnswer inode offset size = some data) :
    ∃ block, s.dataCache.visible (s.dataCache.key inode offset) = some block ∧
      data = (block.drop (offset % s.dataCache.blockSize)).take size := by
  unfold cachedAnswer at h
  split at h
  · next block hblock =>
    dsimp only at h
    split at h
    · refine ⟨block, hblock, ?_⟩
      have hstop : min (offset % s.dataCache.blockSize + size) block.length -
          offset % s.dataCache.blockSize =
          min size (block.drop (offset % s.dataCache.blockSize)).length := by
        rw [List.length_drop]
        omega
      rw [← Option.some.inj h, List.drop_take, hstop, ← List.take_eq_take_min]
    · cases h
  · cases h

theorem cached_fed {s₀ : ObsFsCore} (hempty : ∀ key data, ¬s₀.dataCache.Keeps key data)
    (hw : s₀.dataCache.WellFormed) {evs : List CoreEvent} (now : Now) {inode offset size : ℕ}
    {data : Bytes} (h : (run event s₀ evs).cachedAnswer inode offset size = some data) :
    ∃ key content, s₀.AnsweredFrom evs now inode offset size key content data ∧
      OnceNamed s₀ evs inode key := by
  obtain ⟨block, hblock, hdata⟩ := cachedAnswer_some h
  obtain ⟨n, op, fetched, hev, hfills, hleft⟩ :=
    keeps_origin hempty hw (DataCache.keeps_of_visible hblock)
  obtain ⟨time, inode', fh, start, len, path, content, rfl, hpath, hcontent, hkey, rfl⟩ := hfills
  obtain ⟨kept, hkept, hwhole, hrest⟩ := hleft.eq_take
  have hold := (run_kept (event_cachesOf s₀) ⟨hw, id, rfl, rfl⟩ (evs.take n)).blockSize
  have hnow := (run_kept (event_cachesOf s₀) ⟨hw, id, rfl, rfl⟩ evs).blockSize
  have hpos := s₀.dataCache.blockSize_pos
  have hinode : inode' = inode := (congrArg BlockKey.inode hkey).symm
  have hplace : start / s₀.dataCache.blockSize = offset / s₀.dataCache.blockSize := by
    have hoff : offset / (run event s₀ evs).dataCache.blockSize *
        (run event s₀ evs).dataCache.blockSize =
        start / (run event s₀ (evs.take n)).dataCache.blockSize *
          (run event s₀ (evs.take n)).dataCache.blockSize := congrArg BlockKey.offset hkey
    rw [hold, hnow] at hoff
    exact (Nat.mul_right_cancel hpos hoff).symm
  subst hinode
  refine ⟨(run event s₀ (evs.take n)).obsPath path, content, ?_,
    n, Nat.le_of_lt (List.getElem?_eq_some_iff.mp hev).1, path, hpath, rfl⟩
  rw [hdata, hrest, hnow]
  exact .block hev hplace hcontent hkept hwhole

theorem readRemote_ok {s : ObsFsCore} {now : Now} {inode offset size : ℕ} {obs : Str}
    {data : Bytes} (h : (s.readRemote now inode obs offset size).1 = .ok data) :
    ∃ content, AList.lookup obs s.obsClient.objects = some content ∧
      data = (content.drop offset).take size := by
  unfold readRemote at h
  split at h
  · cases h
  · next found cl hread =>
    obtain ⟨content, hcontent, hdata⟩ := ObsClient.readRange_ok hread
    dsimp only at h
    cases h
    exact ⟨content, hcontent, hdata⟩

/-- Every answer of a run that began with cold caches comes from one content. -/
theorem doRead_answeredFrom {s₀ : ObsFsCore} (hahead : s₀.readahead.prefetchBuffer = ∅)
    (hnone : s₀.spawned = []) (hcold : ∀ key data, ¬s₀.dataCache.Keeps key data)
    (hw : s₀.dataCache.WellFormed) (evs : List CoreEvent) {now : Now} {inode fh offset size : ℕ}
    {data : Bytes} (h : ((run event s₀ evs).doRead now inode fh offset size).1 = .ok data) :
    ∃ key content, s₀.AnsweredFrom evs now inode offset size key content data ∧
      OnceNamed s₀ evs inode key := by
  cases hpath : (run event s₀ evs).inodeMgr.getPath inode with
  | none =>
    unfold doRead at h
    rw [hpath] at h
    cases h
  | some path =>
    rw [doRead_eq _ hpath] at h
    split at h
    · next found hfound =>
      have hfed := prefetched_fed hahead hnone hw size hfound
      cases h
      exact hfed
    · split at h
      · next found hfound =>
        have hfed := cached_fed hcold hw now hfound
        cases h
        exact hfed
      · obtain ⟨content, hcontent, rfl⟩ := readRemote_ok h
        refine ⟨_, content, .storage hcontent, evs.length, Nat.le_refl _, path, ?_⟩
        rw [List.take_length]
        exact ⟨hpath, rfl⟩

theorem new_cold (config : Config) (valid : config.validate = .ok ()) (env : Surroundings)
    (key : BlockKey) (data : Bytes) :
    ¬(ObsFsCore.new config valid env).dataCache.Keeps key data := by
  intro hkeeps
  rcases hkeeps with ⟨block, hblock, -⟩ | hdisk
  · cases hblock
  · obtain ⟨disk, hdisk', hcontent⟩ := Option.bind_eq_some_iff.mp hdisk
    obtain ⟨dir, -, rfl⟩ := Option.map_eq_some_iff.mp hdisk'
    cases hcontent

end ObsFsCore

/-- In every run, with any changes of the bucket by others, the bytes that `do_read` answers are
consecutive bytes of one version of one object that a path of the inode named: the version of the
storage now, that of a prefetch no older than its lifetime, or that of an earlier read. -/
theorem read_from_one_version (config : Config) (valid : config.validate = .ok ())
    (env : Surroundings) (evs : List CoreEvent) (now : Now) (inode fh offset size : ℕ)
    {data : Bytes}
    (h : ((run ObsFsCore.event (.new config valid env) evs).doRead now inode fh offset size).1 =
      .ok data) :
    ∃ key content,
      (ObsFsCore.new config valid env).AnsweredFrom evs now inode offset size key content data ∧
      (ObsFsCore.new config valid env).OnceNamed evs inode key ∧
      data.length ≤ size ∧ data <:+: content := by
  have hanswer := ObsFsCore.doRead_answeredFrom rfl rfl (ObsFsCore.new_cold config valid env)
    (ObsFsCore.new_wellFormed config valid env) evs h
  obtain ⟨key, content, hfrom, hnamed⟩ := hanswer
  exact ⟨key, content, hfrom, hnamed, hfrom.isInfix⟩

/-- A block of an object that another client has replaced since is answered from the old bytes. -/
theorem replaced_object_still_read :
    let s₀ := ObsFsCore.new .basic Config.basic_valid
      (.still { ObsClient.fresh with objects := AList.insert ['a'] [1, 2, 3, 4] ∅ })
    let evs : List CoreEvent :=
      [.op (.lookup ⟨0, 0⟩ rootInode [97]), .op (.read ⟨1, 1⟩ 2 1 0 4),
        .foreign (AList.insert ['a'] [9] ∅)]
    ((run ObsFsCore.event s₀ evs).doRead ⟨2, 2⟩ 2 1 1 2).1 = .ok [2, 3] ∧
      ∃ key content, s₀.AnsweredFrom evs ⟨2, 2⟩ 2 1 2 key content [2, 3] ∧
        s₀.OnceNamed evs 2 key ∧ [2, 3].length ≤ 2 ∧ [2, 3] <:+: content := by
  intro s₀ evs
  have hread : ((run ObsFsCore.event s₀ evs).doRead ⟨2, 2⟩ 2 1 1 2).1 = .ok [2, 3] := by decide
  exact ⟨hread, read_from_one_version .basic Config.basic_valid
    (.still { ObsClient.fresh with objects := AList.insert ['a'] [1, 2, 3, 4] ∅ }) evs ⟨2, 2⟩ 2 1 1
    2 hread⟩

/-- Where the earlier reads of a file began at the starts of blocks, the bytes of an answer are
those that one version of an object of the file has from the offset of the read on. -/
theorem read_in_place (config : Config) (valid : config.validate = .ok ())
    (env : Surroundings) (evs : List CoreEvent) (now : Now) (inode fh offset size : ℕ)
    (haligned : ∀ time fh start len, .op (.read time inode fh start len) ∈ evs →
      config.cache.blockSize ∣ start)
    {data : Bytes}
    (h : ((run ObsFsCore.event (.new config valid env) evs).doRead now inode fh offset size).1 =
      .ok data) :
    ∃ n key content,
      AList.lookup key (run ObsFsCore.event (.new config valid env)
        (evs.take n)).obsClient.objects = some content ∧
      (ObsFsCore.new config valid env).OnceNamed evs inode key ∧ data <+: content.drop offset := by
  have hanswer := ObsFsCore.doRead_answeredFrom rfl rfl (ObsFsCore.new_cold config valid env)
    (ObsFsCore.new_wellFormed config valid env) evs h
  obtain ⟨key, content, hfrom, hnamed⟩ := hanswer
  cases hfrom with
  | storage hobject =>
    refine ⟨evs.length, key, content, ?_, hnamed, List.take_prefix ..⟩
    rw [List.take_length]
    exact hobject
  | @window time n k permit job hev hjob hrange hobject hage =>
    exact ⟨n, key, content, hobject, hnamed,
      (List.take_prefix ..).trans (List.take_prefix ..)⟩
  | @block time n fh start len kept hev hblock hobject _ _ =>
    refine ⟨n, key, content, hobject, hnamed, ?_⟩
    have hstart : config.cache.blockSize ∣ start :=
      haligned time fh start len (List.mem_of_getElem? hev)
    have hsame : start / config.cache.blockSize = offset / config.cache.blockSize := hblock
    have hplace : start + offset % config.cache.blockSize = offset := by
      rw [← Nat.div_mul_cancel hstart, hsame]
      exact Nat.div_add_mod' offset config.cache.blockSize
    have hdrop : ((content.drop start).take kept).drop (offset % config.cache.blockSize) <+:
        content.drop offset := by
      rw [List.drop_take, List.drop_drop, hplace]
      exact List.take_prefix ..
    exact (List.take_prefix ..).trans hdrop

/-- The second read is answered from the block that the first one began at its start. -/
theorem aligned_block_read_in_place :
    let s₀ := ObsFsCore.new .basic Config.basic_valid
      (.still { ObsClient.fresh with objects := AList.insert ['a'] [1, 2, 3, 4] ∅ })
    let evs : List CoreEvent :=
      [.op (.lookup ⟨0, 0⟩ rootInode [97]), .op (.read ⟨1, 1⟩ 2 1 0 4)]
    ∃ n key content,
      AList.lookup key (run ObsFsCore.event s₀ (evs.take n)).obsClient.objects = some content ∧
        s₀.OnceNamed evs 2 key ∧ [3] <+: content.drop 2 := by
  intro s₀ evs
  have haligned : ∀ time fh start len, .op (.read time 2 fh start len) ∈ evs →
      Config.basic.cache.blockSize ∣ start := by
    intro time fh start len hmem
    rcases List.mem_pair.mp hmem with hlookup | hread
    · cases hlookup
    · cases hread
      exact Nat.dvd_zero _
  exact read_in_place .basic Config.basic_valid
    (.still { ObsClient.fresh with objects := AList.insert ['a'] [1, 2, 3, 4] ∅ }) evs ⟨2, 2⟩ 2 1 2
    1 haligned (by decide)

end ObsFuse
