import ObsFuse.Fs.Footprint
import ObsFuse.Fs.Mount

/-! # How old an answer can be

Other clients may change the bucket at any time. Attributes are answered from the cache for the
attribute TTL, and absence for the negative TTL: what a mount says of a name was so, by the
storage or by an own change, at a moment of the run no longer ago than that. -/

namespace ObsFuse
open Lib

namespace ObsFsCore

/-! ### What events never change -/

/-- The settings and the storage library are those of the first state. -/
structure SameService (s₀ s : ObsFsCore) : Prop where
  config : s.config = s₀.config
  cacheConfig : s.metadataCache.config = s₀.metadataCache.config
  faults : s.obsClient.faults = s₀.obsClient.faults
  backend : s.obsClient.backend = s₀.obsClient.backend

theorem SameService.refl (s : ObsFsCore) : SameService s s := ⟨rfl, rfl, rfl, rfl⟩

theorem SameService.event {s₀ s : ObsFsCore} (h : SameService s₀ s) (ev : CoreEvent) :
    SameService s₀ (s.event ev) := by
  cases ev with
  | op op =>
    have hstays := @step_staysIn (fun _ => True) s s.writeBuffer.keysIn_any op fun _ _ => trivial
    exact ⟨hstays.config.trans h.config, hstays.cacheConfig.trans h.cacheConfig,
      hstays.client.faults.trans h.faults, hstays.client.backend.trans h.backend⟩
  | cacheGet now inode =>
    exact ⟨h.config, (MetadataCache.getAttr_config ..).trans h.cacheConfig, h.faults, h.backend⟩
  | cachePut now inode attr =>
    exact ⟨h.config, (MetadataCache.putAttr_config ..).trans h.cacheConfig, h.faults, h.backend⟩
  | foreign objects => exact ⟨h.config, h.cacheConfig, h.faults, h.backend⟩

theorem run_sameService (s : ObsFsCore) (evs : List CoreEvent) :
    SameService s (run event s evs) := by
  have hstep : ∀ (t : ObsFsCore) ev, SameService s t → SameService s (t.event ev) :=
    fun _ ev h => h.event ev
  exact run_kept hstep (.refl s) evs

/-! ### Attributes -/

/-- An event of the run made the attributes, no longer before the time than `ttl`. -/
def SuppliedWithin (s₀ : ObsFsCore) (evs : List CoreEvent) (ttl : ℕ) (now : Now) (inode : ℕ)
    (attr : FileAttr) : Prop :=
  ∃ n ev time, evs[n]? = some ev ∧ (run event s₀ (evs.take n)).Supplies inode ev time attr ∧
    now.instant ≤ time.instant + ttl

theorem SuppliedWithin.append {s₀ : ObsFsCore} {evs : List CoreEvent} {ttl : ℕ} {now : Now}
    {inode : ℕ} {attr : FileAttr} (h : SuppliedWithin s₀ evs ttl now inode attr)
    (last : CoreEvent) : SuppliedWithin s₀ (evs ++ [last]) ttl now inode attr := by
  obtain ⟨n, ev, time, hev, hsupplies, hage⟩ := h
  have hlt : n < evs.length := (List.getElem?_eq_some_iff.mp hev).1
  refine ⟨n, ev, time, ?_, ?_, hage⟩
  · rw [List.getElem?_append_left hlt]
    exact hev
  · rw [List.take_append_of_le_length (Nat.le_of_lt hlt)]
    exact hsupplies

theorem SuppliedWithin.last {s₀ : ObsFsCore} {evs : List CoreEvent} {now : Now} {inode : ℕ}
    {attr : FileAttr} {ev : CoreEvent} (h : (run event s₀ evs).Supplies inode ev now attr)
    (ttl : ℕ) : SuppliedWithin s₀ (evs ++ [ev]) ttl now inode attr := by
  refine ⟨evs.length, ev, now, List.getElem?_concat_length, ?_, Nat.le_add_right ..⟩
  rw [List.take_left]
  exact h

/-- What the cache still answers in a run that began with an empty cache was supplied in it. -/
theorem getAttr_suppliedWithin {s₀ : ObsFsCore} (hempty : s₀.metadataCache.attrCache = ∅)
    (evs : List CoreEvent) {now : Now} {inode : ℕ} {attr : FileAttr}
    (h : ((run event s₀ evs).metadataCache.getAttr now.instant inode).1 = some attr) :
    SuppliedWithin s₀ evs s₀.metadataCache.config.attrTtl now inode attr := by
  obtain ⟨cached, hcached, hfound, hlive⟩ :
      ∃ cached, AList.lookup inode (run event s₀ evs).metadataCache.attrCache = some cached ∧
        cached.attr = attr ∧
        cached.isExpired now.instant (run event s₀ evs).metadataCache.config.attrTtl = false := by
    unfold MetadataCache.getAttr at h
    split at h
    · next cached hc =>
      split at h
      · cases h
      · next hlive =>
        cases h
        exact ⟨cached, hc, rfl, Bool.eq_false_iff.mpr hlive⟩
    · cases h
  have horigin := @run_origin _ _ event (fun _ => True)
    (fun s => AList.lookup inode s.metadataCache.attrCache = some cached)
    (fun s ev => ∃ time : Now, cached.cachedAt = time.instant ∧
      s.Supplies inode ev time cached.attr)
    (fun _ _ _ => trivial) (fun s ev _ hc => s.event_entries ev inode cached hc) s₀ trivial evs
    hcached
  rcases horigin with hstart | ⟨n, ev, hev, time, htime, hsupplies⟩
  · rw [hempty] at hstart
    cases hstart
  · rw [hfound] at hsupplies
    refine ⟨n, ev, time, hev, hsupplies, ?_⟩
    rw [(run_sameService s₀ evs).cacheConfig] at hlive
    unfold CachedAttr.isExpired at hlive
    rw [decide_eq_false_iff_not, htime] at hlive
    exact Nat.sub_le_iff_le_add'.mp (Nat.not_lt.mp hlive)

/-! ### Absence -/

/-- The negative entries of the second state were there in the first. -/
def DeniesNoMore (s s' : ObsFsCore) : Prop :=
  ∀ path time, AList.lookup path s'.metadataCache.negativeCache = some time →
    AList.lookup path s.metadataCache.negativeCache = some time

theorem DeniesNoMore.of_same {s s' : ObsFsCore}
    (h : s'.metadataCache.negativeCache = s.metadataCache.negativeCache) : DeniesNoMore s s' := by
  intro path time hd
  rw [h] at hd
  exact hd

theorem internInode_negativeCache (s : ObsFsCore) (now : Now) (path : Str) (isDir : Bool)
    (size : ℕ) (mk : ℕ → FileAttr) :
    (s.internInode now path isDir size mk).2.metadataCache.negativeCache =
      s.metadataCache.negativeCache :=
  MetadataCache.putAttr_negativeCache ..

theorem readdirLoop_negativeCache (now : Now) (path : Str) (offset : ℤ) (infos : List ObjectMeta)
    (entryOffset : ℤ) (s : ObsFsCore) :
    (readdirLoop now path offset infos entryOffset s).2.2.metadataCache.negativeCache =
      s.metadataCache.negativeCache := by
  induction infos generalizing entryOffset s with
  | nil => rfl
  | cons info infos ih =>
    unfold readdirLoop
    split
    · exact ih _ s
    · dsimp only
      split
      · exact ih _ s
      · exact (ih _ _).trans (internInode_negativeCache ..)

theorem doReaddir_deniesNoMore (s : ObsFsCore) (now : Now) (inode : ℕ) (offset : ℤ) :
    s.DeniesNoMore (s.doReaddir now inode offset).2 := by
  apply DeniesNoMore.of_same
  unfold doReaddir
  split
  · rfl
  · dsimp only
    split
    · rfl
    · exact readdirLoop_negativeCache ..

theorem doGetattr_deniesNoMore (s : ObsFsCore) (now : Now) (inode : ℕ) :
    s.DeniesNoMore (s.doGetattr now inode).2 := by
  have hgot := s.metadataCache.getAttr_negativeCache now.instant inode
  apply DeniesNoMore.of_same
  unfold doGetattr
  dsimp only
  split
  · exact hgot
  · split
    · exact hgot
    · split
      · exact hgot
      · exact (MetadataCache.putAttr_negativeCache ..).trans hgot

theorem doCreate_deniesNoMore (s : ObsFsCore) (now : Now) (parent : ℕ) (name : OsStr)
    (mode flags : ℕ) : s.DeniesNoMore (s.doCreate now parent name mode flags).2 := by
  unfold doCreate
  split
  · exact .of_same rfl
  · next parentPath _ =>
    dsimp only
    split
    · exact .of_same rfl
    · next cl _ =>
      intro path time hd
      have hkept := { s with obsClient := cl }.internInode_negativeCache now
        (childPath parentPath name) false 0 fun inode =>
          s.config.permission.newFile now inode (some mode)
      have hold := Table.lookup_of_erase hd
      rw [hkept] at hold
      exact hold

theorem doMkdir_deniesNoMore (s : ObsFsCore) (now : Now) (parent : ℕ) (name : OsStr)
    (mode : ℕ) : s.DeniesNoMore (s.doMkdir now parent name mode).2 := by
  unfold doMkdir
  split
  · exact .of_same rfl
  · next parentPath _ =>
    dsimp only
    split
    · exact .of_same rfl
    · next cl _ =>
      intro path time hd
      have hkept := { s with obsClient := cl }.internInode_negativeCache now
        (childPath parentPath name) true 0 fun inode =>
          s.config.permission.newDirectory now inode (some mode)
      have hold := Table.lookup_of_erase hd
      rw [hkept] at hold
      exact hold

theorem doWrite_deniesNoMore (s : ObsFsCore) (now : Now) (inode fh offset : ℕ) (data : Bytes) :
    s.DeniesNoMore (s.doWrite now inode fh offset data).2 := by
  have hgot := s.metadataCache.getAttr_negativeCache now.instant inode
  unfold doWrite
  split
  · exact .of_same rfl
  · dsimp only
    split
    · exact .of_same hgot
    · exact .of_same hgot
    · exact .of_same hgot

/-- The event looks up the path by a name in a directory that is known. -/
def LooksFor (s : ObsFsCore) (ev : CoreEvent) (now : Now) (path : Str) : Prop :=
  ∃ parent name parentPath, ev = .op (.lookup now parent name) ∧
    s.inodeMgr.getPath parent = some parentPath ∧ childPath parentPath name = path

/-- Only a lookup of the path denies it, and only where it has found the path absent. -/
theorem event_denies (s : ObsFsCore) (ev : CoreEvent) {path : Str} {time : Instant}
    (h : AList.lookup path (s.event ev).metadataCache.negativeCache = some time) :
    AList.lookup path s.metadataCache.negativeCache = some time ∨
      ∃ now, s.LooksFor ev now path ∧ time = now.instant ∧
        (s.obsClient.Reliable → s.obsClient.backend.Finds → s.Absent path) := by
  have hold : s.DeniesNoMore (s.event ev) → AList.lookup path s.metadataCache.negativeCache =
      some time ∨ ∃ now, s.LooksFor ev now path ∧ time = now.instant ∧
        (s.obsClient.Reliable → s.obsClient.backend.Finds → s.Absent path) :=
    fun hdenies => .inl (hdenies path time h)
  cases ev with
  | foreign objects => exact .inl h
  | cacheGet now inode => exact hold (.of_same (MetadataCache.getAttr_negativeCache ..))
  | cachePut now inode attr => exact hold (.of_same (MetadataCache.putAttr_negativeCache ..))
  | op op =>
    cases op with
    | lookup now parent name =>
      cases hparent : s.inodeMgr.getPath parent with
      | none =>
        -- the directory is not known, and nothing is asked
        have hsame : (s.event (.op (.lookup now parent name))) = s := by
          show (s.doLookup now parent name).2 = s
          unfold doLookup
          rw [hparent]
        rw [hsame] at h
        exact .inl h
      | some parentPath =>
        have hpath : ∀ known ∈ s.inodeMgr.getPath parent,
            childPath parentPath name = childPath known name := by
          intro known hknown
          rw [hparent] at hknown
          cases hknown
          rfl
        rcases (s.doLookup_looksUp now parent name _ hpath).negative path time h with
          hbefore | ⟨hsame, htime, habsent⟩
        · exact .inl hbefore
        · right
          rw [hsame]
          exact ⟨now, ⟨parent, name, parentPath, rfl, hparent, rfl⟩, htime, habsent⟩
    | readdir now inode offset => exact hold (s.doReaddir_deniesNoMore now inode offset)
    | getattr now inode => exact hold (s.doGetattr_deniesNoMore now inode)
    | create now parent name mode flags =>
      exact hold (s.doCreate_deniesNoMore now parent name mode flags)
    | mkdir now parent name mode => exact hold (s.doMkdir_deniesNoMore now parent name mode)
    | write now inode fh offset data =>
      exact hold (s.doWrite_deniesNoMore now inode fh offset data)
    | _ => exact hold (.of_same (s.dropping_shrinks trivial).negative)

/-- A lookup of the path in the run found neither an object at it nor anything below it, no
longer before the time than `ttl`. -/
def FoundAbsentWithin (s₀ : ObsFsCore) (evs : List CoreEvent) (ttl : ℕ) (now : Now)
    (path : Str) : Prop :=
  ∃ n ev time, evs[n]? = some ev ∧ (run event s₀ (evs.take n)).LooksFor ev time path ∧
    (run event s₀ (evs.take n)).Absent path ∧ now.instant ≤ time.instant + ttl

theorem isNegative_foundAbsentWithin {s₀ : ObsFsCore}
    (hempty : s₀.metadataCache.negativeCache = ∅) (hr : s₀.obsClient.Reliable)
    (hf : s₀.obsClient.backend.Finds) (evs : List CoreEvent) {now : Now} {path : Str}
    (h : ((run event s₀ evs).metadataCache.isNegative now.instant path).1 = true) :
    FoundAbsentWithin s₀ evs s₀.metadataCache.config.negativeTtl now path := by
  obtain ⟨time, hdenied, hlive⟩ := (MetadataCache.isNegative_iff now.instant path).mp h
  have hkept : ∀ (s : ObsFsCore) ev, s₀.SameService s → s₀.SameService (s.event ev) :=
    fun _ ev hs => hs.event ev
  have horigin := run_origin hkept
    (fun s ev _ hd => s.event_denies ev hd) (.refl s₀) hdenied
  rcases horigin with hstart | ⟨n, ev, hev, time', hlooks, htime, habsent⟩
  · rw [hempty] at hstart
    cases hstart
  · have hservice := run_sameService s₀ (evs.take n)
    refine ⟨n, ev, time', hev, hlooks, habsent ?_ ?_, ?_⟩
    · intro k
      rw [hservice.faults]
      exact hr k
    · rw [hservice.backend]
      exact hf
    · rw [(run_sameService s₀ evs).cacheConfig, htime] at hlive
      exact Nat.sub_le_iff_le_add'.mp hlive

end ObsFsCore

/-- In every run, with any changes of the bucket by others, the attributes that `do_getattr` or
`do_lookup` answers were made no longer than the attribute TTL ago: from what the storage said of
a path of the inode, or by a creation, a write or a `setattr` of this mount. -/
theorem attributes_within_ttl (config : Config) (valid : config.validate = .ok ())
    (env : Surroundings) (evs : List CoreEvent) (now : Now) :
    let s₀ := ObsFsCore.new config valid env
    let ttl := config.cache.metadata.attrTtl
    (∀ inode attr, ((run ObsFsCore.event s₀ evs).doGetattr now inode).1 = .ok attr →
      s₀.SuppliedWithin (evs ++ [.op (.getattr now inode)]) ttl now inode attr) ∧
    ∀ parent name inode attr,
      ((run ObsFsCore.event s₀ evs).doLookup now parent name).1 = .ok (inode, attr) →
        s₀.SuppliedWithin (evs ++ [.op (.lookup now parent name)]) ttl now inode attr := by
  intro s₀ ttl
  constructor
  · intro inode attr hok
    have hcached := @ObsFsCore.getAttr_suppliedWithin s₀ rfl evs now inode attr
    have hmade := (run ObsFsCore.event s₀ evs).doGetattr_made now inode hok
    rcases hmade with hhit | ⟨path, hpath, hrep⟩
    · exact (hcached hhit).append _
    · exact .last (.getattr hpath hrep) ttl
  · intro parent name inode attr hok
    have hcached := @ObsFsCore.getAttr_suppliedWithin s₀ rfl evs now inode attr
    have hmade := (run ObsFsCore.event s₀ evs).doLookup_made now parent name hok
    rcases hmade with hhit | ⟨path, hpath, hrep⟩
    · exact (hcached hhit).append _
    · exact .last (.lookup hpath hrep) ttl

/-- Attributes of a file that another client has replaced are answered one nanosecond later. -/
theorem changed_elsewhere_still_answered :
    let s₀ := ObsFsCore.new .basic Config.basic_valid
      (.still { ObsClient.fresh with objects := AList.insert ['a'] [1] ∅ })
    let evs : List CoreEvent :=
      [.op (.lookup ⟨5, 0⟩ rootInode [97]), .foreign (AList.insert ['a'] [1, 2, 3] ∅)]
    let found := (s₀.doLookup ⟨5, 0⟩ rootInode [97]).1
    ∃ attr, found = .ok (2, attr) ∧ attr.size = 1 ∧
      s₀.SuppliedWithin (evs ++ [.op (.getattr ⟨6, 0⟩ 2)])
        Config.basic.cache.metadata.attrTtl ⟨6, 0⟩ 2 attr := by
  intro s₀ evs found
  have hanswer := (attributes_within_ttl .basic Config.basic_valid
    (.still { ObsClient.fresh with objects := AList.insert ['a'] [1] ∅ }) evs ⟨6, 0⟩).1 2
  exact ⟨_, rfl, rfl, hanswer _ rfl⟩

/-- In every run, with any changes of the bucket by others and a storage that does not fail, a
name in a known directory is denied only if a lookup of its path found nothing at it or below it
no longer than the negative TTL ago, be it this lookup. -/
theorem denied_within_ttl (config : Config) (valid : config.validate = .ok ())
    (env : Surroundings) (hr : env.client.Reliable) (hf : env.client.backend.Finds)
    (evs : List CoreEvent) (now : Now) (parent : ℕ) (name : OsStr) {parentPath : Str}
    (hparent : (run ObsFsCore.event (.new config valid env) evs).inodeMgr.getPath parent =
      some parentPath)
    (hdenied : ((run ObsFsCore.event (.new config valid env) evs).doLookup now parent name).1.isOk =
      false) :
    (ObsFsCore.new config valid env).FoundAbsentWithin (evs ++ [.op (.lookup now parent name)])
      config.cache.metadata.negativeTtl now (ObsFsCore.childPath parentPath name) := by
  have hservice := ObsFsCore.run_sameService (.new config valid env) evs
  cases hneg : ((run ObsFsCore.event (.new config valid env) evs).metadataCache.isNegative
      now.instant (ObsFsCore.childPath parentPath name)).1 with
  | true =>
    obtain ⟨n, ev, time, hev, hlooks, habsent, hage⟩ :=
      ObsFsCore.isNegative_foundAbsentWithin rfl hr hf evs hneg
    have hlt : n < evs.length := (List.getElem?_eq_some_iff.mp hev).1
    refine ⟨n, ev, time, ?_, ?_⟩
    · rw [List.getElem?_append_left hlt]
      exact hev
    · rw [List.take_append_of_le_length (Nat.le_of_lt hlt)]
      exact ⟨hlooks, habsent, hage⟩
  | false =>
    refine ⟨evs.length, _, now, List.getElem?_concat_length, ?_⟩
    rw [List.take_left]
    refine ⟨⟨parent, name, parentPath, rfl, hparent, rfl⟩, ?_, Nat.le_add_right ..⟩
    by_contra hpresent
    have hreliable : (run ObsFsCore.event (.new config valid env) evs).obsClient.Reliable := by
      intro k
      rw [hservice.faults]
      exact hr k
    have hfinds : (run ObsFsCore.event (.new config valid env) evs).obsClient.backend.Finds := by
      rw [hservice.backend]
      exact hf
    have hok := ObsFsCore.doLookup_ok hreliable hfinds hparent hpresent hneg
    rw [hdenied] at hok
    cases hok

/-- A name that another client has created since is still denied one nanosecond later. -/
theorem created_elsewhere_still_denied :
    let s₀ := ObsFsCore.new .basic Config.basic_valid (.still .fresh)
    let evs : List CoreEvent :=
      [.op (.lookup ⟨5, 0⟩ rootInode [97]), .foreign (AList.insert ['a'] [1] ∅)]
    ((run ObsFsCore.event s₀ evs).doLookup ⟨6, 0⟩ rootInode [97]).1.isOk = false ∧
      s₀.FoundAbsentWithin (evs ++ [.op (.lookup ⟨6, 0⟩ rootInode [97])])
        Config.basic.cache.metadata.negativeTtl ⟨6, 0⟩ ['a'] := by
  intro s₀ evs
  have hdenied : ((run ObsFsCore.event s₀ evs).doLookup ⟨6, 0⟩ rootInode [97]).1.isOk = false := by
    decide
  exact ⟨hdenied, @denied_within_ttl .basic Config.basic_valid (.still .fresh) (fun _ => rfl)
    Backend.plain_finds evs ⟨6, 0⟩ rootInode [97] [] (by decide) hdenied⟩

end ObsFuse
