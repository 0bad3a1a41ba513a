import ObsFuse.Fs.LookupPath
import ObsFuse.Fs.Mount

/-! # Failures and absence

A lookup asks the storage for the object, for the directory marker and for a listing, and
drops whatever error it gets. A getattr tells an object that is not there from a storage that
does not answer. -/

namespace ObsFuse
open Lib

namespace ObsFsCore
variable {s : ObsFsCore}

/-- The answers to the three questions, each asked after the one before it. -/
structure ProbeAnswers where
  file : Except ErrorKind ObjectMeta
  dir : Except ErrorKind ObjectMeta
  list : Except ErrorKind (List ObjectMeta)

def probeAnswers (s : ObsFsCore) (path : Str) : ProbeAnswers :=
  let (file, cl) := s.obsClient.stat (s.obsPath path)
  let (dir, cl) := cl.stat (dirKey (s.obsPath path))
  ⟨file, dir, (cl.list (dirKey (s.obsPath path))).1⟩

/-- The storage says that there is nothing: neither object exists, and the listing is empty. -/
def ProbeAnswers.Nothing (a : ProbeAnswers) : Prop :=
  a.file = .error .notFound ∧ a.dir = .error .notFound ∧ a.list = .ok []

/-- The storage says of one of the questions that there is something. -/
def ProbeAnswers.Something (a : ProbeAnswers) : Prop :=
  (∃ info, a.file = .ok info) ∨ (∃ info, a.dir = .ok info) ∨ ∃ e es, a.list = .ok (e :: es)

/-- The lookup returns `ENOENT`, or it leaves the path in the negative cache otherwise than
its own check of that cache does. -/
def DeniesName (s : ObsFsCore) (now : Now) (parent : ℕ) (name : OsStr) (path : Str) : Prop :=
  (s.doLookup now parent name).1 = .err .notFound ∨
    (s.doLookup now parent name).2.metadataCache.negativeCache ≠
      (s.metadataCache.isNegative now.instant path).2.negativeCache

theorem getAttr_isNegative (c : MetadataCache) (now : Instant) (path : Str) (inode : ℕ) :
    ((c.isNegative now path).2.getAttr now inode).1 = (c.getAttr now inode).1 := by
  simp only [MetadataCache.getAttr, MetadataCache.isNegative_attrCache,
    MetadataCache.isNegative_config]
  cases AList.lookup inode c.attrCache with
  | none => rfl
  | some cached =>
    dsimp only
    split
    · rfl
    · rfl

theorem doLookup_remote {now : Now} {parent : ℕ} {name : OsStr} {parentPath : Str}
    (hp : s.inodeMgr.getPath parent = some parentPath)
    (hneg : (s.metadataCache.isNegative now.instant (childPath parentPath name)).1 = false)
    (hattr : ∀ inode ∈ s.inodeMgr.getInode (childPath parentPath name),
      (s.metadataCache.getAttr now.instant inode).1 = none) :
    ∃ cache : MetadataCache,
      cache.negativeCache =
        (s.metadataCache.isNegative now.instant (childPath parentPath name)).2.negativeCache ∧
      s.doLookup now parent name =
        { s with metadataCache := cache }.lookupRemote now (childPath parentPath name) := by
  unfold doLookup
  rw [hp]
  dsimp only
  rw [hneg, if_neg Bool.false_ne_true]
  cases hi : s.inodeMgr.getInode (childPath parentPath name) with
  | none => exact ⟨_, rfl, rfl⟩
  | some inode =>
    dsimp only
    rw [getAttr_isNegative, hattr inode hi]
    exact ⟨_, MetadataCache.getAttr_negativeCache .., rfl⟩

theorem probe_eq_none_iff (s : ObsFsCore) (now : Now) (path : Str) :
    (s.probe now path).1 = none ↔ ¬(s.probeAnswers path).Something := by
  simp only [probe, probeAnswers, ProbeAnswers.Something]
  generalize s.obsClient.stat (s.obsPath path) = r
  obtain ⟨_ | info, cl⟩ := r
  · dsimp only
    generalize cl.stat (dirKey (s.obsPath path)) = r
    obtain ⟨_ | info, cl⟩ := r
    · dsimp only
      generalize cl.list (dirKey (s.obsPath path)) = r
      obtain ⟨e | _ | ⟨e, es⟩, cl⟩ := r
      · refine iff_of_true rfl ?_
        rintro (⟨_, h⟩ | ⟨_, h⟩ | ⟨_, _, h⟩)
        all_goals cases h
      · refine iff_of_true rfl ?_
        rintro (⟨_, h⟩ | ⟨_, h⟩ | ⟨_, _, h⟩)
        all_goals cases h
      · exact iff_of_false (Option.some_ne_none _) fun h => h (.inr (.inr ⟨e, es, rfl⟩))
    · exact iff_of_false (Option.some_ne_none _) fun h => h (.inr (.inl ⟨info, rfl⟩))
  · exact iff_of_false (Option.some_ne_none _) fun h => h (.inl ⟨info, rfl⟩)

theorem lookupRemote_denies_iff (s : ObsFsCore) (now : Now) (path : Str) :
    ((s.lookupRemote now path).1 = .err .notFound ∨
      (s.lookupRemote now path).2.metadataCache.negativeCache ≠ s.metadataCache.negativeCache) ↔
      ¬(s.probeAnswers path).Something := by
  rw [← s.probe_eq_none_iff now, lookupRemote_eq]
  generalize s.probe now path = r
  obtain ⟨_ | ⟨isDir, size, attr⟩, cl⟩ := r
  · exact iff_of_true (.inl rfl) rfl
  · refine iff_of_false ?_ (Option.some_ne_none _)
    rintro (herr | hcache)
    · cases herr
    · exact hcache (MetadataCache.putAttr_negativeCache ..)

end ObsFsCore

/-- A lookup that asks the storage denies a name only on its word exactly when the storage says
that there is something, or says of all three questions that there is nothing. -/
theorem denied_on_storage_word_iff (s : ObsFsCore) (now : Now) (parent : ℕ) (name : OsStr)
    {parentPath : Str} (hp : s.inodeMgr.getPath parent = some parentPath)
    (hneg : (s.metadataCache.isNegative now.instant
      (ObsFsCore.childPath parentPath name)).1 = false)
    (hattr : ∀ inode ∈ s.inodeMgr.getInode (ObsFsCore.childPath parentPath name),
      (s.metadataCache.getAttr now.instant inode).1 = none) :
    (s.DeniesName now parent name (ObsFsCore.childPath parentPath name) →
        (s.probeAnswers (ObsFsCore.childPath parentPath name)).Nothing) ↔
      (s.probeAnswers (ObsFsCore.childPath parentPath name)).Something ∨
        (s.probeAnswers (ObsFsCore.childPath parentPath name)).Nothing := by
  obtain ⟨cache, hcache, hremote⟩ := ObsFsCore.doLookup_remote hp hneg hattr
  have hdenies : s.DeniesName now parent name (ObsFsCore.childPath parentPath name) ↔
      ¬(s.probeAnswers (ObsFsCore.childPath parentPath name)).Something := by
    unfold ObsFsCore.DeniesName
    rw [hremote, ← hcache]
    exact ObsFsCore.lookupRemote_denies_iff { s with metadataCache := cache } now _
  rw [hdenies, imp_iff_not_or, Classical.not_not]

/-- The storage does not answer for the object itself, but has its directory marker. -/
theorem marker_found_after_failure :
    let client : ObsClient :=
      { ObsClient.holding .plain [['d', '/']] with
        faults := fun n => if n = 0 then some .rateLimited else none }
    let s := ObsFsCore.new .basic Config.basic_valid (.still client)
    s.DeniesName ⟨0, 0⟩ 1 ['d'.toUInt8] ['d'] → (s.probeAnswers ['d']).Nothing := by
  intro client s
  exact (denied_on_storage_word_iff s ⟨0, 0⟩ 1 ['d'.toUInt8] rfl (by decide)
    (by decide)).mpr (.inl (.inr (.inl ⟨_, rfl⟩)))

/-- Three requests are throttled: the file is there, the lookup says it is not, and so does the
next one, which does not ask the storage any more. -/
theorem throttled_lookup_denies_file :
    let client : ObsClient :=
      { ObsClient.holding .plain [['f']] with
        faults := fun n => if n < 3 then some .rateLimited else none }
    let s := ObsFsCore.new .basic Config.basic_valid (.still client)
    let (answer, t) := s.doLookup ⟨0, 0⟩ 1 ['f'.toUInt8]
    ['f'] ∈ t.obsClient.objects ∧ answer = .err .notFound ∧
      t.metadataCache.negativeCache.keys = [['f']] ∧
      (s.probeAnswers ['f']).file = .error .rateLimited ∧
      (t.doLookup ⟨1, 1⟩ 1 ['f'.toUInt8]).1 = .err .notFound ∧
      ¬(s.DeniesName ⟨0, 0⟩ 1 ['f'.toUInt8] ['f'] → (s.probeAnswers ['f']).Nothing) := by
  refine ⟨by decide, by decide, by decide, rfl, by decide, ?_⟩
  intro h
  have hnothing := h (.inl (by decide))
  cases hnothing.1

end ObsFuse
