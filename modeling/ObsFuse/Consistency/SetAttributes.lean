import ObsFuse.Consistency.SizeRecords

/-! # Setting attributes

`setattr` works on the attributes in the cache, or on those of the inode's entry where the cache
has none. The first branch applies all the fields of the request, the second leaves out the
times. -/

namespace ObsFuse
open Lib

/-- The fields of the request as `SetAttrFlags` has them; a request does not set `ctime`. -/
def SetAttr.flags (set : SetAttr) : SetAttrFlags where
  mode := set.mode
  uid := set.uid
  gid := set.gid
  size := set.size
  atime := set.atime.map timestampToSystemtime
  mtime := set.mtime.map timestampToSystemtime
  ctime := Option.none

/-- The request sets no time to another than it has. -/
def SetAttr.KeepsTimes (set : SetAttr) (attr : FileAttr) : Prop :=
  (∀ atime ∈ set.atime, timestampToSystemtime atime = attr.atime) ∧
    ∀ mtime ∈ set.mtime, timestampToSystemtime mtime = attr.mtime

theorem SetAttr.applyTimes_apply (set : SetAttr) (attr : FileAttr) :
    set.applyTimes (set.apply attr) = set.flags.apply attr := rfl

theorem getD_map_eq_iff {α β : Type*} (f : α → β) (x : Option α) (b : β) :
    (x.map f).getD b = b ↔ ∀ a ∈ x, f a = b := by
  cases x with
  | none => simp
  | some a => simp

/-- Without the times, the fields come out as the flags apply them exactly when the times are
kept. -/
theorem SetAttr.apply_eq_iff (set : SetAttr) (attr : FileAttr) :
    set.apply attr = set.flags.apply attr ↔ set.KeepsTimes attr := by
  unfold KeepsTimes
  rw [← getD_map_eq_iff, ← getD_map_eq_iff]
  constructor
  · intro h
    exact ⟨(congrArg (·.atime) h).symm, (congrArg (·.mtime) h).symm⟩
  · intro h
    obtain ⟨hatime, hmtime⟩ := h
    unfold SetAttr.apply SetAttrFlags.apply
    rw [show (set.flags.atime.getD attr.atime) = attr.atime from hatime,
      show (set.flags.mtime.getD attr.mtime) = attr.mtime from hmtime]
    rfl

/-! ### The request -/

/-- The truncation to nothing writes the empty object at once; this request alone can fail. -/
def ObsFsCore.TruncationFails (s : ObsFsCore) (set : SetAttr) : Prop :=
  set.size = some 0 ∧ s.obsClient.fault ≠ none

theorem ObsFsCore.doTruncate_outcome {s : ObsFsCore} {inode : ℕ} {path : Str}
    (hp : s.inodeMgr.getPath inode = some path) (now : Now) (size : ℕ) :
    (s.doTruncate now inode size).1 =
      if size = 0 ∧ s.obsClient.fault ≠ none then .err .ioError else .ok () := by
  unfold doTruncate WriteBuffer.truncate
  rw [hp]
  dsimp only
  by_cases hsize : size = 0
  · rw [if_pos hsize]
    cases hf : s.obsClient.fault with
    | some e =>
      rw [ObsClient.write_failed hf, if_pos ⟨hsize, Option.some_ne_none e⟩]
    | none =>
      rw [ObsClient.write_stored hf, if_neg (fun h => h.2 rfl)]
  · rw [if_neg hsize, if_neg (fun h => hsize h.1)]

namespace ObsFs

/-- The request returns and caches the attributes with the fields that it supplies, unless its
truncation fails, which changes no attributes. -/
structure SetsExactly (s : ObsFsCore) (now : Now) (inode : ℕ) (set : SetAttr)
    (attr : FileAttr) : Prop where
  done : ¬s.TruncationFails set →
    (setattr s now inode set).1 = .ok (set.flags.apply attr) ∧
      AList.lookup inode (setattr s now inode set).2.metadataCache.attrCache =
        some ⟨set.flags.apply attr, now.instant⟩
  failed : s.TruncationFails set →
    (setattr s now inode set).1 = .err .ioError ∧
      (setattr s now inode set).2.metadataCache = s.metadataCache

variable {s : ObsFsCore} {inode : ℕ} {entry : InodeEntry}

theorem updateAttr_sets (hentry : s.inodeMgr.getEntry inode = some entry)
    (hcached : ∀ cached ∈ AList.lookup inode s.metadataCache.attrCache, cached.attr = entry.attr)
    (now : Now) (set : SetAttr) :
    ∃ attr, (updateAttr s now inode set).1 = .ok attr ∧
      AList.lookup inode (updateAttr s now inode set).2.metadataCache.attrCache =
        some ⟨attr, now.instant⟩ ∧
      attr = if (s.metadataCache.getAttr now.instant inode).1.isSome then
          set.flags.apply entry.attr else set.apply entry.attr := by
  by_cases hfresh : (s.metadataCache.getAttr now.instant inode).1.isSome
  · obtain ⟨cached, hlookup, hget⟩ := MetadataCache.getAttr_fresh hfresh
    have hsame := hcached cached hlookup
    rw [if_pos hfresh]
    unfold updateAttr
    rw [hget, hsame]
    exact ⟨_, rfl, AList.lookup_insert .., set.applyTimes_apply entry.attr⟩
  · rw [if_neg hfresh]
    rw [Bool.not_eq_true, Option.isSome_eq_false_iff, Option.isNone_iff_eq_none] at hfresh
    unfold updateAttr
    generalize s.metadataCache.getAttr now.instant inode = r at hfresh
    obtain ⟨_, cache⟩ := r
    dsimp only at hfresh
    rw [hfresh, hentry]
    exact ⟨_, rfl, AList.lookup_insert .., rfl⟩

/-- Past the truncation, which touches no attributes, the request updates them. -/
theorem setattr_after_truncation (hentry : s.inodeMgr.getEntry inode = some entry) (now : Now)
    (set : SetAttr) :
    ∃ t : ObsFsCore, t.metadataCache = s.metadataCache ∧ t.inodeMgr = s.inodeMgr ∧
      (s.TruncationFails set → setattr s now inode set = (.err .ioError, t)) ∧
      (¬s.TruncationFails set → setattr s now inode set = updateAttr t now inode set) := by
  have hpath : s.inodeMgr.getPath inode = some entry.path :=
    Option.map_eq_some_iff.mpr ⟨entry, hentry, rfl⟩
  unfold setattr ObsFsCore.TruncationFails
  cases hsize : set.size with
  | none =>
    refine ⟨s, rfl, rfl, ?_, fun _ => rfl⟩
    intro hfails
    cases hfails.1
  | some size =>
    have houtcome := ObsFsCore.doTruncate_outcome hpath now size
    obtain ⟨hcache, hmgr⟩ := SizedFile.doTruncate_sizes s now inode size
    dsimp only
    rw [Option.some.injEq]
    generalize s.doTruncate now inode size = r at houtcome hcache hmgr
    obtain ⟨outcome, t⟩ := r
    dsimp only at houtcome hcache hmgr
    refine ⟨t, hcache, hmgr, ?_, ?_⟩
    · intro hfails
      rw [houtcome, if_pos hfails]
    · intro hpasses
      rw [houtcome, if_neg hpasses]

end ObsFs

/-- Where the cache, if it has the inode, agrees with its entry, a request sets exactly what it
supplies if and only if the cached attributes are found, or no time is changed, or the
truncation fails. -/
theorem setattr_exact_iff {s : ObsFsCore} {inode : ℕ} {entry : InodeEntry}
    (hentry : s.inodeMgr.getEntry inode = some entry)
    (hcached : ∀ cached ∈ AList.lookup inode s.metadataCache.attrCache, cached.attr = entry.attr)
    (now : Now) (set : SetAttr) :
    ObsFs.SetsExactly s now inode set entry.attr ↔
      (s.metadataCache.getAttr now.instant inode).1.isSome ∨ set.KeepsTimes entry.attr ∨
        s.TruncationFails set := by
  obtain ⟨t, hcache, hmgr, hfailed, hpassed⟩ := ObsFs.setattr_after_truncation hentry now set
  rw [← hcache] at hcached ⊢
  rw [← hmgr] at hentry
  obtain ⟨attr, hresult, hstored, hattr⟩ := ObsFs.updateAttr_sets hentry hcached now set
  constructor
  · intro h
    by_cases hfails : s.TruncationFails set
    · exact .inr (.inr hfails)
    · by_cases hfresh : (t.metadataCache.getAttr now.instant inode).1.isSome
      · exact .inl hfresh
      · have hdone := (h.done hfails).1
        rw [hpassed hfails, hresult, hattr, if_neg hfresh] at hdone
        exact .inr (.inl ((set.apply_eq_iff entry.attr).mp (Outcome.ok.inj hdone)))
  · intro h
    constructor
    · intro hpasses
      have hexact : attr = set.flags.apply entry.attr := by
        rw [hattr]
        split
        · rfl
        · next hexpired =>
          rcases h with hfresh | hkeeps | hfails
          · exact absurd hfresh hexpired
          · exact (set.apply_eq_iff entry.attr).mpr hkeeps
          · exact absurd hfails hpasses
      rw [hpassed hpasses, ← hexact]
      exact ⟨hresult, hstored⟩
    · intro hfails
      rw [hfailed hfails, ← hcache]
      exact ⟨rfl, rfl⟩

/-- The file `f`, looked up at mount. -/
def lookedUpFile : ObsFsCore := ObsFsCore.oneFile .basic Config.basic_valid [1, 2, 3]

/-- The owner and a modification time are set while the attributes are cached. -/
theorem cached_setattr_exact :
    ObsFs.SetsExactly lookedUpFile ⟨1, 1⟩ 2
      { SetAttr.none with uid := some 7, mtime := some ⟨5, 0⟩ }
      (Config.basic.permission.fromObjectMeta ⟨0, 0⟩ 2 ⟨['f'], 3, none, false⟩) := by
  let attr := Config.basic.permission.fromObjectMeta ⟨0, 0⟩ 2 ⟨['f'], 3, none, false⟩
  have hentry : lookedUpFile.inodeMgr.getEntry 2 = some ⟨['f'], attr, false, none, 0, 0⟩ := rfl
  refine (setattr_exact_iff hentry ?_ ⟨1, 1⟩ _).mpr (.inl (by decide))
  intro cached hlookup
  cases hlookup
  rfl

/-- The same modification time is set one second before the cached attributes expire and one
second after: the second request returns and caches the old time. -/
theorem expired_setattr_loses_mtime :
    let set := { SetAttr.none with mtime := some ⟨5, 0⟩ }
    let attr := Config.basic.permission.fromObjectMeta ⟨0, 0⟩ 2 ⟨['f'], 3, none, false⟩
    (lookedUpFile.inodeMgr.getEntry 2).map (·.attr) = some attr ∧
      (AList.lookup 2 lookedUpFile.metadataCache.attrCache).map (·.attr) = some attr ∧
      (ObsFs.setattr lookedUpFile ⟨secs 2, secs 2⟩ 2 set).1 =
        .ok { attr with mtime := 5000000000 } ∧
      (ObsFs.setattr lookedUpFile ⟨secs 4, secs 4⟩ 2 set).1 = .ok attr ∧
      ¬ObsFs.SetsExactly lookedUpFile ⟨secs 4, secs 4⟩ 2 set attr := by
  intro set attr
  have hexpired : (ObsFs.setattr lookedUpFile ⟨secs 4, secs 4⟩ 2 set).1 = .ok attr := by decide
  refine ⟨by decide, by decide, by decide, hexpired, ?_⟩
  intro h
  have hdone := (h.done fun hfails => by cases hfails.1).1
  have hkept := hexpired.symm.trans hdone
  revert hkept
  decide

end ObsFuse
