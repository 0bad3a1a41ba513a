import ObsFuse.Fs.CacheSteps
import ObsFuse.Fs.Mount
import ObsFuse.Fs.WinFsp

/-! # Setting the times of a file

Both platforms count time from other moments on and in other units than `SystemTime`, and none
of the conversions goes back before 1970. The requests that set times change cached attributes,
so these times are answered for as long as the cache may. -/

namespace ObsFuse
open Lib

/-- The FILETIMEs that a system time of Windows can name come back from it as they were, but none
before 1970, and the others panic; system times come back rounded down to their interval of
100 ns, none before 1970 either. -/
theorem filetime_round_trips (ft : ℕ) (st : ℤ) (hst : st / 100 + Timestamp.epochDiff < 2 ^ 63) :
    ((Timestamp.fromFiletime ft).toSystemTime.map fun time =>
        (Timestamp.ofSystemTime time).toFiletime) =
          (if ft < 2 ^ 63 then some (max ft Timestamp.epochDiff) else none) ∧
      (Timestamp.fromFiletime (Timestamp.ofSystemTime st).toFiletime).toSystemTime =
        some (max 0 (st - st % 100)) := by
  constructor
  · by_cases hft : ft < 2 ^ 63
    · obtain ⟨time, htime, hback⟩ := Timestamp.toFiletime_fromFiletime hft
      rw [htime, if_pos hft, ← hback]
      rfl
    · rw [Timestamp.toSystemTime_fromFiletime, if_neg hft, if_neg hft]
      rfl
  · rw [Timestamp.toSystemTime_fromFiletime]
    rcases Int.lt_or_le st 0 with hneg | hpos
    · have hbefore : st - st % 100 ≤ 0 := by omega
      rw [Timestamp.toFiletime_ofSystemTime_neg hneg, Nat.sub_self, Int.max_eq_left hbefore]
      rfl
    · obtain ⟨n, rfl⟩ := Int.eq_ofNat_of_zero_le hpos
      have hfit : n / 100 + Timestamp.epochDiff < 2 ^ 63 := by omega
      have hafter : 0 ≤ (n : ℤ) - n % 100 := by omega
      have hround : ((n / 100 : ℕ) : ℤ) * 100 = (n : ℤ) - n % 100 := by omega
      rw [Timestamp.toFiletime_ofSystemTime_nat (hfit.trans (by decide)), if_pos hfit,
        Nat.add_sub_cancel, Int.max_eq_right hafter]
      exact congrArg some hround

/-- A FILETIME of 2024 with all its digits, and a system time just before 1970. -/
theorem recent_filetime_round_trips :
    ((Timestamp.fromFiletime 133500000012345678).toSystemTime.map fun time =>
        (Timestamp.ofSystemTime time).toFiletime) = some 133500000012345678 ∧
      (Timestamp.fromFiletime (Timestamp.ofSystemTime (-1)).toFiletime).toSystemTime = some 0 :=
  filetime_round_trips 133500000012345678 (-1) (by decide)

/-! ### Setting times -/

/-- The FILETIME that is answered after `set_basic_info` was given one for a time. -/
def answeredTime (given present : ℕ) : ℕ :=
  if given = 0 then present else max given Timestamp.epochDiff

namespace WinFspFs

/-- Windows has a system time for each of the arguments of `set_basic_info`. -/
structure BasicTimes.Fit (times : BasicTimes) : Prop where
  creationTime : times.creationTime < 2 ^ 63
  lastAccessTime : times.lastAccessTime < 2 ^ 63
  lastWriteTime : times.lastWriteTime < 2 ^ 63
  changeTime : times.changeTime < 2 ^ 63

def BasicTimes.answered (times : BasicTimes) (info : FileInfo) : FileInfo :=
  { info with
    creationTime := answeredTime times.creationTime info.creationTime
    lastAccessTime := answeredTime times.lastAccessTime info.lastAccessTime
    lastWriteTime := answeredTime times.lastWriteTime info.lastWriteTime
    changeTime := answeredTime times.changeTime info.changeTime }

theorem toFiletime_setTime {ft : ℕ} (h : ft < 2 ^ 63) (time : SystemTime) :
    ∃ st, setTime ft time = some st ∧
      (Timestamp.ofSystemTime st).toFiletime =
        answeredTime ft (Timestamp.ofSystemTime time).toFiletime := by
  unfold setTime answeredTime
  by_cases hzero : ft = 0
  · rw [if_neg (not_not_intro hzero), if_pos hzero]
    exact ⟨time, rfl, rfl⟩
  · rw [if_pos hzero, if_neg hzero]
    exact Timestamp.toFiletime_fromFiletime h

theorem setTime_some {ft : ℕ} {time st : SystemTime} (h : setTime ft time = some st) :
    ft < 2 ^ 63 := by
  by_contra hlate
  have hset : ft ≠ 0 := by omega
  unfold setTime at h
  rw [if_pos hset, Timestamp.toSystemTime_fromFiletime, if_neg hlate] at h
  cases h

theorem buildFileInfo_apply {times : BasicTimes} (h : times.Fit) (attr : FileAttr) :
    ∃ attr', times.apply attr = some attr' ∧
      buildFileInfo attr' = times.answered (buildFileInfo attr) := by
  obtain ⟨crtime, hcr, hcrinfo⟩ := toFiletime_setTime h.creationTime attr.crtime
  obtain ⟨atime, ha, hainfo⟩ := toFiletime_setTime h.lastAccessTime attr.atime
  obtain ⟨mtime, hm, hminfo⟩ := toFiletime_setTime h.lastWriteTime attr.mtime
  obtain ⟨ctime, hc, hcinfo⟩ := toFiletime_setTime h.changeTime attr.ctime
  refine ⟨{ attr with crtime, atime, mtime, ctime }, ?_, ?_⟩
  · unfold BasicTimes.apply
    rw [hcr, ha, hm, hc]
    rfl
  · unfold buildFileInfo BasicTimes.answered
    dsimp only
    rw [hcrinfo, hainfo, hminfo, hcinfo]
    rfl

/-- All four conversions have a value, or there is none. -/
theorem fit_of_apply {times : BasicTimes} {attr attr' : FileAttr}
    (h : times.apply attr = some attr') : times.Fit := by
  simp only [BasicTimes.apply, Option.bind_eq_bind, Option.bind_eq_some_iff] at h
  obtain ⟨crtime, hcr, atime, ha, mtime, hm, ctime, hc, -⟩ := h
  exact ⟨setTime_some hcr, setTime_some ha, setTime_some hm, setTime_some hc⟩

end WinFspFs

theorem MetadataCache.getAttr_putAttr (c : MetadataCache) {now later : Instant} (inode : ℕ)
    (attr : FileAttr) (h : later - now ≤ c.config.attrTtl) :
    ((c.putAttr now inode attr).getAttr later inode).1 = some attr := by
  have hstored : AList.lookup inode (c.putAttr now inode attr).attrCache = some ⟨attr, now⟩ :=
    AList.lookup_insert _
  have hfresh : CachedAttr.isExpired ⟨attr, now⟩ later c.config.attrTtl = false :=
    decide_eq_false (Nat.not_lt.mpr h)
  unfold getAttr
  rw [hstored, putAttr_config]
  dsimp only
  rw [hfresh]
  rfl

theorem ObsFsCore.doGetattr_cached {s : ObsFsCore} {now : Now} {inode : ℕ} {attr : FileAttr}
    (h : (s.metadataCache.getAttr now.instant inode).1 = some attr) :
    s.doGetattr now inode = (.ok attr, { s with
      metadataCache := (s.metadataCache.getAttr now.instant inode).2 }) := by
  unfold doGetattr
  dsimp only
  rw [h]

namespace WinFspFs

theorem setBasicInfo_cached {s : ObsFsCore} {now : Now} {context : FileContext} {attr : FileAttr}
    (h : (s.metadataCache.getAttr now.instant context.inode).1 = some attr) (now' : Now)
    {times : BasicTimes} {attr' : FileAttr} (hset : times.apply attr = some attr') :
    setBasicInfo s now now' context times =
      (some (.ok (buildFileInfo attr')), { s with
        metadataCache := (s.metadataCache.getAttr now.instant context.inode).2.putAttr now'.instant
          context.inode attr' }) := by
  unfold setBasicInfo
  dsimp only
  rw [h]
  dsimp only
  rw [hset]

/-- Where a conversion panics, nothing is answered. -/
theorem setBasicInfo_panics {s : ObsFsCore} {now : Now} {context : FileContext} {attr : FileAttr}
    (h : (s.metadataCache.getAttr now.instant context.inode).1 = some attr) (now' : Now)
    {times : BasicTimes} (hset : times.apply attr = none) :
    (setBasicInfo s now now' context times).1 = none := by
  unfold setBasicInfo
  dsimp only
  rw [h]
  dsimp only
  rw [hset]

theorem fileInfo_cached {s : ObsFsCore} {now : Now} {inode : ℕ} {attr : FileAttr}
    (h : (s.metadataCache.getAttr now.instant inode).1 = some attr) :
    (fileInfo s now inode).1 = .ok (buildFileInfo attr) := by
  unfold fileInfo
  dsimp only
  rw [ObsFsCore.doGetattr_cached h]
  rfl

/-- The state after a request for the file information of an inode. -/
def afterInfo (inode : ℕ) (s : ObsFsCore) (now : Now) : ObsFsCore := (fileInfo s now inode).2

/-- The attributes of the inode were cached at the time. -/
def CachedAt (inode : ℕ) (attr : FileAttr) (since : Instant) (ttl : ℕ) (s : ObsFsCore) : Prop :=
  AList.lookup inode s.metadataCache.attrCache = some ⟨attr, since⟩ ∧
    s.metadataCache.config.attrTtl = ttl

theorem CachedAt.getAttr {inode : ℕ} {attr : FileAttr} {since : Instant} {ttl : ℕ} {s : ObsFsCore}
    (h : CachedAt inode attr since ttl s) {now : Now} (hnow : now.instant - since ≤ ttl) :
    s.metadataCache.getAttr now.instant inode = (some attr, s.metadataCache) := by
  have hfresh : CachedAttr.isExpired ⟨attr, since⟩ now.instant s.metadataCache.config.attrTtl =
      false := by
    rw [h.2]
    exact decide_eq_false (Nat.not_lt.mpr hnow)
  unfold MetadataCache.getAttr
  rw [h.1]
  dsimp only
  rw [hfresh]
  rfl

theorem CachedAt.afterInfo {inode : ℕ} {attr : FileAttr} {since : Instant} {ttl : ℕ}
    {s : ObsFsCore} (h : CachedAt inode attr since ttl s) {now : Now}
    (hnow : now.instant - since ≤ ttl) : CachedAt inode attr since ttl (afterInfo inode s now) := by
  have hget := h.getAttr hnow
  have hcached : (s.metadataCache.getAttr now.instant inode).1 = some attr := by rw [hget]
  unfold WinFspFs.afterInfo fileInfo
  dsimp only
  rw [ObsFsCore.doGetattr_cached hcached, hget]
  exact h

end WinFspFs

/-- With attributes cached and times that Windows can count, `set_basic_info` answers them with the
times that it was given, and so does each request for the file information after it for as long as
the cache may, however many of these come between. With a later time it has no answer, and with no
attributes cached it does what it does for no times. -/
theorem set_basic_info_times (s : ObsFsCore) (now now' : Now) (context : FileContext)
    (times : WinFspFs.BasicTimes) :
    (∀ attr, (s.metadataCache.getAttr now.instant context.inode).1 = some attr → times.Fit →
      ∃ s', WinFspFs.setBasicInfo s now now' context times =
          (some (.ok (times.answered (WinFspFs.buildFileInfo attr))), s') ∧
        ∀ (asked : List Now) (later : Now),
          (∀ time ∈ asked ++ [later],
            time.instant - now'.instant ≤ s.metadataCache.config.attrTtl) →
          (WinFspFs.fileInfo (run (WinFspFs.afterInfo context.inode) s' asked) later
              context.inode).1 =
            .ok (times.answered (WinFspFs.buildFileInfo attr))) ∧
    (∀ attr, (s.metadataCache.getAttr now.instant context.inode).1 = some attr → ¬times.Fit →
      (WinFspFs.setBasicInfo s now now' context times).1 = none) ∧
    ((s.metadataCache.getAttr now.instant context.inode).1 = none →
      WinFspFs.setBasicInfo s now now' context times =
        WinFspFs.setBasicInfo s now now' context ⟨0, 0, 0, 0⟩) := by
  refine ⟨?_, ?_, ?_⟩
  · intro attr hcached hfit
    obtain ⟨attr', hset, hinfo⟩ := WinFspFs.buildFileInfo_apply hfit attr
    rw [WinFspFs.setBasicInfo_cached hcached now' hset, ← hinfo]
    refine ⟨_, rfl, ?_⟩
    intro asked later hlive
    have hstart : WinFspFs.CachedAt context.inode attr' now'.instant
        s.metadataCache.config.attrTtl { s with
          metadataCache := (s.metadataCache.getAttr now.instant context.inode).2.putAttr
            now'.instant context.inode attr' } := by
      refine ⟨AList.lookup_insert _, ?_⟩
      rw [MetadataCache.putAttr_config, MetadataCache.getAttr_config]
    have hasked : ∀ time ∈ asked, time.instant - now'.instant ≤ s.metadataCache.config.attrTtl :=
      fun time htime => hlive time (List.mem_append_left _ htime)
    have hkept := @run_invariant_of_forall _ _ (WinFspFs.afterInfo context.inode)
      (fun time => time.instant - now'.instant ≤ s.metadataCache.config.attrTtl)
      (WinFspFs.CachedAt context.inode attr' now'.instant s.metadataCache.config.attrTtl)
      (fun _ _ hc htime => hc.afterInfo htime) _ asked hstart hasked
    apply WinFspFs.fileInfo_cached
    rw [hkept.getAttr (hlive later (List.mem_append_right _ (List.mem_singleton_self later)))]
  · intro attr hcached hfit
    apply WinFspFs.setBasicInfo_panics hcached
    cases hset : times.apply attr with
    | none => rfl
    | some attr' => exact absurd (WinFspFs.fit_of_apply hset) hfit
  · intro hcached
    unfold WinFspFs.setBasicInfo
    dsimp only
    rw [hcached]

/-- A new file's creation and write times are set: the one is before 1970, the other is later. -/
theorem created_file_times_set :
    let s := ((ObsFsCore.new .basic Config.basic_valid (.still .fresh)).doCreate ⟨0, 0⟩ rootInode
      [97] 0o644 1).2
    let info : FileInfo :=
      { fileAttributes := 0x80, reparseTag := 0, allocationSize := 0, fileSize := 0,
        creationTime := 116444736000000000, lastAccessTime := 116444736000000000,
        lastWriteTime := 133500000012345678, changeTime := 116444736000000000, indexNumber := 2,
        hardLinks := 0, eaSize := 0 }
    ∃ s', WinFspFs.setBasicInfo s ⟨1, 1⟩ ⟨2, 2⟩ ⟨2, 1, false⟩ ⟨5, 0, 133500000012345678, 0⟩ =
        (some (.ok info), s') ∧
      ∀ (asked : List Now) (later : Now), (∀ time ∈ asked ++ [later], time.instant - 2 ≤ secs 3) →
        (WinFspFs.fileInfo (run (WinFspFs.afterInfo 2) s' asked) later 2).1 = .ok info := by
  intro s info
  exact (set_basic_info_times s ⟨1, 1⟩ ⟨2, 2⟩ ⟨2, 1, false⟩ ⟨5, 0, 133500000012345678, 0⟩).1 _ rfl
    ⟨by decide, by decide, by decide, by decide⟩

/-! ### On Linux -/

/-- The timestamps of a request have less than a second of nanoseconds. -/
structure SetAttr.Proper (set : SetAttr) : Prop where
  atime : ∀ ts ∈ set.atime, ts.nsec < 1000000000
  mtime : ∀ ts ∈ set.mtime, ts.nsec < 1000000000

theorem ofSystemTime_getD {ts : Option Timestamp} (h : ∀ t ∈ ts, t.nsec < 1000000000)
    (time : SystemTime) :
    Timestamp.ofSystemTime ((ts.map timestampToSystemtime).getD time) =
      (ts.map Timestamp.fromEpoch).getD (.ofSystemTime time) := by
  cases ts with
  | none => rfl
  | some t => exact Timestamp.ofSystemTime_fromEpoch (h t rfl)

namespace ObsFs
variable {core : ObsFsCore} {now : Now} {inode : ℕ} {set : SetAttr} {attr : FileAttr}

theorem updateAttr_stored (h : (updateAttr core now inode set).1 = .ok attr) {later : Now}
    (hlater : later.instant - now.instant ≤ core.metadataCache.config.attrTtl) :
    ((updateAttr core now inode set).2.metadataCache.getAttr later.instant inode).1 =
      some attr := by
  have hconfig := core.metadataCache.getAttr_config now.instant inode
  unfold updateAttr at h ⊢
  generalize core.metadataCache.getAttr now.instant inode = got at h hconfig ⊢
  obtain ⟨cached, cache⟩ := got
  rw [← hconfig] at hlater
  cases cached with
  | some old =>
    cases h
    exact cache.getAttr_putAttr inode _ hlater
  | none =>
    dsimp only at h ⊢
    cases hentry : core.inodeMgr.getEntry inode with
    | none =>
      rw [hentry] at h
      cases h
    | some entry =>
      rw [hentry] at h
      cases h
      exact cache.getAttr_putAttr inode _ hlater

theorem updateAttr_times (hset : set.Proper) {old : FileAttr}
    (hcached : (core.metadataCache.getAttr now.instant inode).1 = some old)
    (h : (updateAttr core now inode set).1 = .ok attr) :
    attr.toFuse3.atime = (set.atime.map Timestamp.fromEpoch).getD old.toFuse3.atime ∧
      attr.toFuse3.mtime = (set.mtime.map Timestamp.fromEpoch).getD old.toFuse3.mtime := by
  unfold updateAttr at h
  generalize core.metadataCache.getAttr now.instant inode = got at hcached h
  obtain ⟨cached, cache⟩ := got
  cases hcached
  cases h
  exact ⟨ofSystemTime_getD hset.atime old.atime, ofSystemTime_getD hset.mtime old.mtime⟩

/-- A request that is answered has only updated the attributes, or first truncated. -/
theorem setattr_updates (h : (setattr core now inode set).1 = .ok attr) :
    ∃ core', core'.metadataCache = core.metadataCache ∧
      setattr core now inode set = updateAttr core' now inode set := by
  unfold setattr at h ⊢
  cases hsize : set.size with
  | none => exact ⟨core, rfl, rfl⟩
  | some size =>
    have hcache : (core.doTruncate now inode size).2.metadataCache = core.metadataCache := by
      unfold ObsFsCore.doTruncate
      split
      · rfl
      · split
        · rfl
        · rfl
        · rfl
    rw [hsize] at h
    dsimp only at h ⊢
    generalize core.doTruncate now inode size = r at h hcache ⊢
    obtain ⟨_ | _ | _, core'⟩ := r
    · exact ⟨core', hcache, rfl⟩
    · cases h
    · cases h

theorem serve_setattr {ttl : ℕ}
    (h : (serve core (.setattr now inode set)).1 = .ok (.attr ttl attr)) :
    ((setattr core now inode set).1 = .ok attr ∧
        ttl = (setattr core now inode set).2.metadataCache.config.attrTtl) ∧
      (serve core (.setattr now inode set)).2 = (setattr core now inode set).2 := by
  unfold serve attrTtl at h
  refine ⟨?_, rfl⟩
  dsimp only at h
  generalize setattr core now inode set = r at h ⊢
  obtain ⟨_ | _ | _, core'⟩ := r
  · cases h
    exact ⟨rfl, rfl⟩
  · cases h
  · cases h

end ObsFs

/-- The attributes that SETATTR answers are answered by GETATTR for as long as the cache may; and
with attributes cached, their times are, for the kernel, those of the request, but none before
1970. -/
theorem setattr_times (s : ObsFsCore) (now : Now) (inode : ℕ) (set : SetAttr) {ttl : ℕ}
    {attr : FileAttr} (hset : set.Proper)
    (h : (ObsFs.serve s (.setattr now inode set)).1 = .ok (.attr ttl attr)) :
    (∀ later : Now, later.instant - now.instant ≤ s.metadataCache.config.attrTtl →
        (ObsFs.serve (ObsFs.serve s (.setattr now inode set)).2 (.getattr later inode)).1 =
          .ok (.attr ttl attr)) ∧
      ∀ old, (s.metadataCache.getAttr now.instant inode).1 = some old →
        attr.toFuse3.atime = (set.atime.map Timestamp.fromEpoch).getD old.toFuse3.atime ∧
          attr.toFuse3.mtime = (set.mtime.map Timestamp.fromEpoch).getD old.toFuse3.mtime := by
  obtain ⟨hok, hstate⟩ := ObsFs.serve_setattr h
  rw [hstate]
  obtain ⟨core, hcache, hupdates⟩ := ObsFs.setattr_updates hok.1
  rw [hupdates] at hok ⊢
  rw [← hcache]
  constructor
  · intro later hlater
    have hstored := ObsFs.updateAttr_stored hok.1 hlater
    unfold ObsFs.serve
    dsimp only
    rw [ObsFsCore.doGetattr_cached hstored]
    unfold ObsFs.attrTtl
    dsimp only
    rw [MetadataCache.getAttr_config, hok.2]
    rfl
  · intro old hold
    exact ObsFs.updateAttr_times hset hold hok.1

/-- The access time of a new file is set to before 1970 and its write time to later. -/
theorem created_file_times_answered :
    let s := ((ObsFsCore.new .basic Config.basic_valid (.still .fresh)).doCreate ⟨0, 0⟩ rootInode
      [97] 0o644 1).2
    let set : SetAttr := { SetAttr.none with
      atime := some ⟨-1, 999999999⟩, mtime := some ⟨1700000000, 5⟩ }
    let attr : FileAttr := { FileAttr.file 0 2 0 0 0 0o644 with mtime := 1700000000000000005 }
    ∀ later : Now, later.instant - 1 ≤ secs 3 →
      (ObsFs.serve (ObsFs.serve s (.setattr ⟨1, 1⟩ 2 set)).2 (.getattr later 2)).1 =
        .ok (.attr (secs 3) attr) := by
  intro s set attr
  have hset : set.Proper := by
    constructor
    · rintro ts ⟨⟩
      decide
    · rintro ts ⟨⟩
      decide
  exact (setattr_times s ⟨1, 1⟩ 2 set hset rfl).1

end ObsFuse
