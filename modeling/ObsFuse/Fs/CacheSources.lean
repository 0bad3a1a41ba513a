import ObsFuse.Fs.Events
import ObsFuse.Fs.Frames
import ObsFuse.Fs.ReadPath
import ObsFuse.Fs.ReaddirPath

/-! # Where cached attributes come from

What the storage says of a path, and which events put attributes of an inode in the metadata
cache. An entry of the cache was there before an event, or the event supplies it. -/

namespace ObsFuse
open Lib

/-- The attributes for an inode that the storage, in the state, gives for the path: those of its
object, of its directory marker, of a directory with something below it, or of a listed object. -/
inductive ObsFsCore.Reported (s : ObsFsCore) (now : Now) (inode : ℕ) (path : Str) :
    FileAttr → Prop where
  | object {info : Metadata} :
    s.obsClient.backend.stat s.obsClient.objects (s.obsPath path) = .ok info →
    Reported s now inode path
      (s.config.permission.fromObjectMeta now inode (.fromOpendal (s.obsPath path) info))
  | marker {info : Metadata} :
    s.obsClient.backend.stat s.obsClient.objects (dirKey (s.obsPath path)) = .ok info →
    Reported s now inode path
      (s.config.permission.fromObjectMeta now inode (.fromOpendal (dirKey (s.obsPath path)) info))
  | below {entries : List Str} :
    s.obsClient.backend.list s.obsClient.objects (dirKey (s.obsPath path)) = .ok entries →
    entries ≠ [] → Reported s now inode path (s.config.permission.newDirectory now inode none)
  | listed {dir key : Str} {entries : List Str} {info : Metadata} :
    s.obsClient.backend.list s.obsClient.objects (s.listingKey dir) = .ok entries →
    key ∈ entries → path = joinPath dir (fileName key) →
    s.obsClient.backend.stat s.obsClient.objects key = .ok info →
    Reported s now inode path (s.config.permission.fromObjectMeta now inode (.fromOpendal key info))

/-- The event, taken in the state, makes the attributes for the inode. -/
inductive ObsFsCore.Supplies (s : ObsFsCore) (inode : ℕ) : CoreEvent → Now → FileAttr → Prop where
  | lookup {now : Now} {parent : ℕ} {name : OsStr} {path : Str} {attr : FileAttr} :
    (s.doLookup now parent name).2.inodeMgr.getInode path = some inode →
    s.Reported now inode path attr → Supplies s inode (.op (.lookup now parent name)) now attr
  | readdir {now : Now} {dir : ℕ} {offset : ℤ} {path : Str} {attr : FileAttr} :
    (s.doReaddir now dir offset).2.inodeMgr.getInode path = some inode →
    s.Reported now inode path attr → Supplies s inode (.op (.readdir now dir offset)) now attr
  | getattr {now : Now} {path : Str} {attr : FileAttr} :
    s.inodeMgr.getPath inode = some path → s.Reported now inode path attr →
    Supplies s inode (.op (.getattr now inode)) now attr
  | create {now : Now} {parent : ℕ} {name : OsStr} {mode flags fh : ℕ} {attr : FileAttr} :
    (s.doCreate now parent name mode flags).1 = .ok (inode, attr, fh) →
    Supplies s inode (.op (.create now parent name mode flags)) now attr
  | mkdir {now : Now} {parent : ℕ} {name : OsStr} {mode : ℕ} {attr : FileAttr} :
    (s.doMkdir now parent name mode).1 = .ok (inode, attr) →
    Supplies s inode (.op (.mkdir now parent name mode)) now attr
  | write {now : Now} {fh offset n : ℕ} {data : Bytes} {old : FileAttr} :
    (s.doWrite now inode fh offset data).1 = .ok n →
    (s.metadataCache.getAttr now.instant inode).1 = some old →
    Supplies s inode (.op (.write now inode fh offset data)) now
      { old with size := max old.size (u64 (offset + n)), mtime := now.system }
  | cachePut {now : Now} {attr : FileAttr} : Supplies s inode (.cachePut now inode attr) now attr

namespace MetadataCache
variable {c : MetadataCache}

theorem putAttr_entry {now : Instant} {inode j : ℕ} {attr : FileAttr} {cached : CachedAttr}
    (h : AList.lookup j (c.putAttr now inode attr).attrCache = some cached) :
    j = inode ∧ cached = ⟨attr, now⟩ ∨ AList.lookup j c.attrCache = some cached := by
  simp only [putAttr] at h
  rcases Table.lookup_insert_cases h with hnew | ⟨-, hold⟩
  · exact .inl hnew
  · right
    split at hold
    · exact lookup_evictOldestAttrs hold
    · exact hold

theorem getAttr_isNegative (c : MetadataCache) (now now' : Instant) (path : Str) (inode : ℕ) :
    ((c.isNegative now path).2.getAttr now' inode).1 = (c.getAttr now' inode).1 := by
  unfold getAttr
  rw [isNegative_attrCache, isNegative_config]
  cases AList.lookup inode c.attrCache with
  | none => rfl
  | some cached =>
    dsimp only
    split
    · rfl
    · rfl

/-- The second cache denies the same paths, and holds no attributes that the first does not. -/
structure Shrinks (c c' : MetadataCache) : Prop where
  negative : c'.negativeCache = c.negativeCache
  attr : ∀ inode cached, AList.lookup inode c'.attrCache = some cached →
    AList.lookup inode c.attrCache = some cached

theorem Shrinks.refl (c : MetadataCache) : c.Shrinks c := ⟨rfl, fun _ _ h => h⟩

theorem Shrinks.of_eq {c' : MetadataCache} (h : c' = c) : c.Shrinks c' := by
  rw [h]
  exact .refl c

theorem Shrinks.trans {c' c'' : MetadataCache} (h : c.Shrinks c') (h' : c'.Shrinks c'') :
    c.Shrinks c'' :=
  ⟨h'.negative.trans h.negative, fun inode cached hc => h.attr _ _ (h'.attr inode cached hc)⟩

theorem invalidateDir_shrinks (c : MetadataCache) (inode : ℕ) : c.Shrinks (c.invalidateDir inode) :=
  ⟨rfl, fun _ _ h => h⟩

theorem invalidate_shrinks (c : MetadataCache) (inode : ℕ) : c.Shrinks (c.invalidate inode) :=
  ⟨rfl, fun _ _ h => Table.lookup_of_erase h⟩

theorem updateAttr_entry {now : Instant} {inode j : ℕ} {f : FileAttr → FileAttr}
    {cached : CachedAttr}
    (h : AList.lookup j (c.updateAttr now inode f).attrCache = some cached) :
    (j = inode ∧ ∃ old, AList.lookup inode c.attrCache = some old ∧ cached = ⟨f old.attr, now⟩) ∨
      AList.lookup j c.attrCache = some cached := by
  simp only [updateAttr, Table.lookup_modify] at h
  split at h
  · next hj =>
    obtain ⟨old, hold, heq⟩ := Option.map_eq_some_iff.mp h
    exact .inl ⟨hj, old, hold, heq.symm⟩
  · exact .inr h

end MetadataCache

namespace ObsFsCore
variable {s t : ObsFsCore} {now : Now} {inode : ℕ} {path : Str} {attr : FileAttr}

/-- A cached entry of the state was in the cache before, or is one of those described. -/
def EntriesFrom (s s' : ObsFsCore) (P : ℕ → CachedAttr → Prop) : Prop :=
  ∀ inode cached, AList.lookup inode s'.metadataCache.attrCache = some cached →
    AList.lookup inode s.metadataCache.attrCache = some cached ∨ P inode cached

theorem EntriesFrom.of_kept {P : ℕ → CachedAttr → Prop}
    (h : ∀ inode cached, AList.lookup inode t.metadataCache.attrCache = some cached →
      AList.lookup inode s.metadataCache.attrCache = some cached) : EntriesFrom s t P :=
  fun inode cached hc => .inl (h inode cached hc)

theorem EntriesFrom.of_same {P : ℕ → CachedAttr → Prop}
    (h : t.metadataCache.attrCache = s.metadataCache.attrCache) : EntriesFrom s t P := by
  intro inode cached hc
  rw [h] at hc
  exact .inl hc

theorem EntriesFrom.trans {u : ObsFsCore} {P : ℕ → CachedAttr → Prop} (h : EntriesFrom s t P)
    (h' : EntriesFrom t u P) : EntriesFrom s u P := by
  intro inode cached hc
  rcases h' inode cached hc with hold | hnew
  · exact h inode cached hold
  · exact .inr hnew

theorem EntriesFrom.imp {P Q : ℕ → CachedAttr → Prop} (h : EntriesFrom s t P)
    (hPQ : ∀ inode cached, P inode cached → Q inode cached) : EntriesFrom s t Q := by
  intro inode cached hc
  rcases h inode cached hc with hold | hnew
  · exact .inl hold
  · exact .inr (hPQ inode cached hnew)

/-! ### What the storage reports -/

/-- The two states have the same settings and ask the same bucket. -/
structure SameStorage (s t : ObsFsCore) : Prop where
  config : t.config = s.config
  client : s.obsClient.SameBucket t.obsClient

theorem SameStorage.refl (s : ObsFsCore) : s.SameStorage s := ⟨rfl, .refl _⟩

theorem SameStorage.trans {u : ObsFsCore} (h : s.SameStorage t) (h' : t.SameStorage u) :
    s.SameStorage u :=
  ⟨h'.config.trans h.config, h.client.trans h'.client⟩

theorem SameStorage.obsPath (h : s.SameStorage t) (path : Str) : t.obsPath path = s.obsPath path :=
  obsPath_congr h.config path

theorem SameStorage.listingKey (h : s.SameStorage t) (path : Str) :
    t.listingKey path = s.listingKey path := by
  unfold ObsFsCore.listingKey
  rw [h.obsPath]

theorem SameStorage.reported (h : s.SameStorage t) (hrep : t.Reported now inode path attr) :
    s.Reported now inode path attr := by
  cases hrep with
  | object hstat =>
    rw [h.client.backend, h.client.objects, h.obsPath] at hstat
    rw [h.config, h.obsPath]
    exact .object hstat
  | marker hstat =>
    rw [h.client.backend, h.client.objects, h.obsPath] at hstat
    rw [h.config, h.obsPath]
    exact .marker hstat
  | below hlist hne =>
    rw [h.client.backend, h.client.objects, h.obsPath] at hlist
    rw [h.config]
    exact .below hlist hne
  | listed hlist hkey hpath hstat =>
    rw [h.client.backend, h.client.objects, h.listingKey] at hlist
    rw [h.client.backend, h.client.objects] at hstat
    rw [h.config]
    exact .listed hlist hkey hpath hstat

/-- What the three questions of a lookup find is what the storage reports. -/
theorem probe_reported {isDir : Bool} {size : ℕ} {mk : ℕ → FileAttr}
    (h : (s.probe now path).1 = some (isDir, size, mk)) (inode : ℕ) :
    s.Reported now inode path (mk inode) := by
  simp only [probe] at h
  have hfile := s.obsClient.stat_sameBucket (s.obsPath path)
  have hobject := @ObsClient.stat_answered s.obsClient (s.obsPath path)
  generalize s.obsClient.stat (s.obsPath path) = r at h hfile hobject
  obtain ⟨_ | info, cl⟩ := r
  · dsimp only at h hfile
    have hdir := hfile.trans (cl.stat_sameBucket (dirKey (s.obsPath path)))
    have hmarker := @ObsClient.stat_answered cl (dirKey (s.obsPath path))
    rw [hfile.backend, hfile.objects] at hmarker
    generalize cl.stat (dirKey (s.obsPath path)) = r at h hdir hmarker
    obtain ⟨_ | info, cl'⟩ := r
    · dsimp only at h hdir
      have hbelow := @ObsClient.list_answered cl' (dirKey (s.obsPath path))
      rw [hdir.backend, hdir.objects] at hbelow
      generalize cl'.list (dirKey (s.obsPath path)) = r at h hbelow
      obtain ⟨_ | _ | ⟨info, infos⟩, cl''⟩ := r
      · cases h
      · cases h
      · cases h
        exact .below (hbelow rfl).1 (List.cons_ne_nil _ _)
    · cases h
      obtain ⟨found, hstat, heq⟩ := hmarker rfl
      rw [heq]
      exact .marker hstat
  · cases h
    obtain ⟨found, hstat, heq⟩ := hobject rfl
    rw [heq]
    exact .object hstat

/-! ### Operations that ask the storage -/

theorem internInode_entries (s : ObsFsCore) (now : Now) (path : Str) (isDir : Bool) (size : ℕ)
    (mk : ℕ → FileAttr) :
    EntriesFrom s (s.internInode now path isDir size mk).2 fun inode cached =>
      (s.internInode now path isDir size mk).2.inodeMgr.getInode path = some inode ∧
        cached = ⟨mk inode, now.instant⟩ := by
  intro inode cached hc
  rcases MetadataCache.putAttr_entry hc with ⟨hinode, hcached⟩ | hold
  · right
    rw [hcached, hinode]
    exact ⟨InodeManager.getInode_getOrCreateInode .., rfl⟩
  · exact .inl hold

/-- What an operation that asks the storage may put in the cache. -/
def Found (s : ObsFsCore) (now : Now) (mgr : InodeManager) (inode : ℕ) (cached : CachedAttr) :
    Prop :=
  ∃ path, mgr.getInode path = some inode ∧ s.Reported now inode path cached.attr ∧
    cached.cachedAt = now.instant

theorem lookupRemote_entries (s : ObsFsCore) (now : Now) (path : Str) :
    EntriesFrom s (s.lookupRemote now path).2
      (s.Found now (s.lookupRemote now path).2.inodeMgr) := by
  have hprobe := @probe_reported s now path
  rw [lookupRemote_eq]
  generalize s.probe now path = r at hprobe ⊢
  obtain ⟨_ | ⟨isDir, size, mk⟩, cl⟩ := r
  · exact .of_same rfl
  · have hentries := { s with obsClient := cl }.internInode_entries now path isDir size mk
    intro inode cached hc
    rcases hentries inode cached hc with hold | ⟨hinode, hcached⟩
    · exact .inl hold
    · right
      refine ⟨path, hinode, ?_, ?_⟩
      · rw [hcached]
        exact hprobe rfl inode
      · rw [hcached]

theorem doLookup_entries (s : ObsFsCore) (now : Now) (parent : ℕ) (name : OsStr) :
    EntriesFrom s (s.doLookup now parent name).2
      (s.Found now (s.doLookup now parent name).2.inodeMgr) := by
  have hremote : ∀ (cache : MetadataCache) (path : Str),
      (∀ inode cached, AList.lookup inode cache.attrCache = some cached →
        AList.lookup inode s.metadataCache.attrCache = some cached) →
      EntriesFrom s ({ s with metadataCache := cache }.lookupRemote now path).2
        (s.Found now ({ s with metadataCache := cache }.lookupRemote now path).2.inodeMgr) := by
    intro cache path hkept inode cached hc
    rcases lookupRemote_entries _ now path inode cached hc with hold | ⟨p, hp, hrep, htime⟩
    · exact .inl (hkept inode cached hold)
    · have hsame : s.SameStorage { s with metadataCache := cache } := ⟨rfl, .refl _⟩
      exact .inr ⟨p, hp, hsame.reported hrep, htime⟩
  unfold doLookup
  split
  · exact .of_same rfl
  · dsimp only
    split
    · exact .of_same (MetadataCache.isNegative_attrCache ..)
    · split
      · apply hremote
        intro inode cached hc
        rw [MetadataCache.isNegative_attrCache] at hc
        exact hc
      · have hkept : ∀ path i inode cached, AList.lookup inode
            ((s.metadataCache.isNegative now.instant path).2.getAttr now.instant i).2.attrCache =
              some cached → AList.lookup inode s.metadataCache.attrCache = some cached := by
          intro path i inode cached hc
          have hneg := MetadataCache.lookup_getAttr hc
          rw [MetadataCache.isNegative_attrCache] at hneg
          exact hneg
        split
        · exact .of_kept (hkept _ _)
        · exact hremote _ _ (hkept _ _)

/-- Interning one listed object after the other, all of them reported. -/
theorem readdirLoop_found (now : Now) (path : Str) (offset : ℤ) (infos : List ObjectMeta)
    (entryOffset : ℤ) (s₀ s : ObsFsCore) (hsame : s₀.SameStorage s)
    (hlisted : ∀ info ∈ infos, ∀ inode, s₀.Reported now inode (joinPath path info.name)
      (s₀.config.permission.fromObjectMeta now inode info)) :
    let r := readdirLoop now path offset infos entryOffset s
    EntriesFrom s r.2.2 (s₀.Found now r.2.2.inodeMgr) ∧
      ∀ p i, s.inodeMgr.getInode p = some i → r.2.2.inodeMgr.getInode p = some i := by
  induction infos generalizing entryOffset s with
  | nil => exact ⟨.of_same rfl, fun _ _ h => h⟩
  | cons info infos ih =>
    have hrest : ∀ x ∈ infos, ∀ inode, s₀.Reported now inode (joinPath path x.name)
        (s₀.config.permission.fromObjectMeta now inode x) :=
      fun x hx => hlisted x (List.mem_cons_of_mem _ hx)
    unfold readdirLoop
    split
    · exact ih _ s hsame hrest
    · dsimp only
      split
      · exact ih _ s hsame hrest
      · have hhead := s.internInode_entries now (joinPath path info.name) info.isDir info.size
          fun inode => s.config.permission.fromObjectMeta now inode info
        have hkept : ∀ p i, s.inodeMgr.getInode p = some i →
            (s.internInode now (joinPath path info.name) info.isDir info.size fun inode =>
              s.config.permission.fromObjectMeta now inode info).2.inodeMgr.getInode p = some i :=
          fun p i hi => InodeManager.getInode_getOrCreateInode_of_some hi ..
        have hnext : s₀.SameStorage (s.internInode now (joinPath path info.name) info.isDir
            info.size fun inode => s.config.permission.fromObjectMeta now inode info).2 :=
          hsame.trans ⟨rfl, .refl _⟩
        obtain ⟨htail, hmono⟩ := ih (entryOffset + 1) _ hnext hrest
        refine ⟨?_, fun p i hi => hmono p i (hkept p i hi)⟩
        intro inode cached hc
        rcases htail inode cached hc with hold | hnew
        · rcases hhead inode cached hold with hbefore | ⟨hinode, hcached⟩
          · exact .inl hbefore
          · refine .inr ⟨_, hmono _ _ hinode, ?_, ?_⟩
            · rw [hcached, hsame.config]
              exact hlisted info (List.mem_cons_self ..) inode
            · rw [hcached]
        · exact .inr hnew

theorem listDir_listingKey (s : ObsFsCore) (cl : ObsClient) (path : Str) :
    cl.listDir (s.listingKey path) = cl.list (s.listingKey path) := by
  have hkey : s.listingKey path = [] ∨ (s.listingKey path).getLast? = some '/' := by
    unfold listingKey
    split
    · exact .inl rfl
    · right
      unfold dirKey
      exact List.getLast?_concat
  unfold ObsClient.listDir
  dsimp only
  rw [if_pos hkey]

theorem doReaddir_entries (s : ObsFsCore) (now : Now) (dir : ℕ) (offset : ℤ) :
    EntriesFrom s (s.doReaddir now dir offset).2
      (s.Found now (s.doReaddir now dir offset).2.inodeMgr) := by
  unfold doReaddir
  split
  · exact .of_same rfl
  · next path _ =>
    dsimp only
    have hanswer := @ObsClient.list_answered s.obsClient (s.listingKey path)
    have hinfos := @ObsClient.list_infos s.obsClient (s.listingKey path)
    have hclient := s.obsClient.list_sameBucket (s.listingKey path)
    rw [← s.listDir_listingKey s.obsClient path] at hanswer hinfos hclient
    unfold listingKey at hanswer hinfos hclient
    generalize s.obsClient.listDir (if s.obsPath path = [] then [] else dirKey (s.obsPath path)) = l
      at hanswer hinfos hclient ⊢
    obtain ⟨_ | infos, cl⟩ := l
    · exact .of_same rfl
    · obtain ⟨hlist, -⟩ := hanswer rfl
      have hlisted : ∀ info ∈ infos, ∀ inode, s.Reported now inode (joinPath path info.name)
          (s.config.permission.fromObjectMeta now inode info) := by
        intro info hmem inode
        obtain ⟨found, hstat, heq⟩ := hinfos rfl info hmem
        have hkey : info.path ∈ infos.map (·.path) := List.mem_map_of_mem hmem
        rw [heq]
        exact .listed hlist hkey rfl hstat
      have hsame : s.SameStorage { s with obsClient := cl } := ⟨rfl, hclient⟩
      exact (readdirLoop_found now path offset infos 3 s { s with obsClient := cl } hsame
        hlisted).1

theorem doGetattr_entries (s : ObsFsCore) (now : Now) (inode : ℕ) :
    EntriesFrom s (s.doGetattr now inode).2 fun i cached =>
      i = inode ∧ cached.cachedAt = now.instant ∧ ∃ path, s.inodeMgr.getPath inode = some path ∧
        s.Reported now inode path cached.attr := by
  have hkept : ∀ i cached, AList.lookup i
      (s.metadataCache.getAttr now.instant inode).2.attrCache = some cached →
        AList.lookup i s.metadataCache.attrCache = some cached :=
    fun i cached hc => MetadataCache.lookup_getAttr hc
  unfold doGetattr
  dsimp only
  split
  · exact .of_kept hkept
  · split
    · exact .of_kept hkept
    · next path hpath =>
      have hstat := @ObsClient.stat_answered s.obsClient (s.obsPath path)
      have hobs : ∀ cache, ({ s with metadataCache := cache } : ObsFsCore).obsPath path =
          s.obsPath path := fun _ => rfl
      rw [hobs]
      generalize s.obsClient.stat (s.obsPath path) = r at hstat ⊢
      obtain ⟨_ | info, cl⟩ := r
      · exact .of_kept hkept
      · intro i cached hc
        rcases MetadataCache.putAttr_entry hc with ⟨hi, hcached⟩ | hold
        · obtain ⟨found, hfound, heq⟩ := hstat rfl
          right
          rw [hcached]
          refine ⟨hi, rfl, path, hpath, ?_⟩
          rw [heq]
          exact .object hfound
        · exact .inl (hkept i cached hold)

/-! ### What is answered -/

theorem doGetattr_made (s : ObsFsCore) (now : Now) (inode : ℕ) {attr : FileAttr}
    (h : (s.doGetattr now inode).1 = .ok attr) :
    (s.metadataCache.getAttr now.instant inode).1 = some attr ∨
      ∃ path, s.inodeMgr.getPath inode = some path ∧ s.Reported now inode path attr := by
  unfold doGetattr at h
  dsimp only at h
  split at h
  · next found hhit =>
    cases h
    exact .inl hhit
  · split at h
    · cases h
    · next path hpath =>
      have hstat := @ObsClient.stat_answered s.obsClient (s.obsPath path)
      have hobs : ∀ cache, ({ s with metadataCache := cache } : ObsFsCore).obsPath path =
          s.obsPath path := fun _ => rfl
      rw [hobs] at h
      generalize s.obsClient.stat (s.obsPath path) = r at h hstat
      obtain ⟨_ | info, cl⟩ := r
      · cases h
      · cases h
        obtain ⟨found, hfound, heq⟩ := hstat rfl
        refine .inr ⟨path, hpath, ?_⟩
        rw [heq]
        exact .object hfound

theorem lookupRemote_made (s : ObsFsCore) (now : Now) (path : Str) {inode : ℕ} {attr : FileAttr}
    (h : (s.lookupRemote now path).1 = .ok (inode, attr)) :
    (s.lookupRemote now path).2.inodeMgr.getInode path = some inode ∧
      s.Reported now inode path attr := by
  have hprobe := @probe_reported s now path
  rw [lookupRemote_eq] at h ⊢
  generalize s.probe now path = r at h hprobe ⊢
  obtain ⟨_ | ⟨isDir, size, mk⟩, cl⟩ := r
  · cases h
  · have hinode := s.inodeMgr.getInode_getOrCreateInode now path isDir size
    cases h
    exact ⟨hinode, hprobe rfl _⟩

theorem doLookup_made (s : ObsFsCore) (now : Now) (parent : ℕ) (name : OsStr) {inode : ℕ}
    {attr : FileAttr} (h : (s.doLookup now parent name).1 = .ok (inode, attr)) :
    (s.metadataCache.getAttr now.instant inode).1 = some attr ∨
      ∃ path, (s.doLookup now parent name).2.inodeMgr.getInode path = some inode ∧
        s.Reported now inode path attr := by
  have hremote : ∀ (cache : MetadataCache) (path : Str),
      ({ s with metadataCache := cache }.lookupRemote now path).1 = .ok (inode, attr) →
        ({ s with metadataCache := cache }.lookupRemote now path).2.inodeMgr.getInode path =
          some inode ∧ s.Reported now inode path attr := by
    intro cache path hok
    have hsame : s.SameStorage { s with metadataCache := cache } := ⟨rfl, .refl _⟩
    obtain ⟨hinode, hrep⟩ := lookupRemote_made _ now path hok
    exact ⟨hinode, hsame.reported hrep⟩
  revert h
  unfold doLookup
  split
  · intro h
    cases h
  · dsimp only
    split
    · intro h
      cases h
    · split
      · intro h
        obtain ⟨hinode, hrep⟩ := hremote _ _ h
        exact .inr ⟨_, hinode, hrep⟩
      · split
        · next found hhit =>
          intro h
          cases h
          left
          rw [← hhit]
          exact (MetadataCache.getAttr_isNegative ..).symm
        · intro h
          obtain ⟨hinode, hrep⟩ := hremote _ _ h
          exact .inr ⟨_, hinode, hrep⟩

/-! ### The other operations -/

theorem doCreate_entries (s : ObsFsCore) (now : Now) (parent : ℕ) (name : OsStr)
    (mode flags : ℕ) :
    EntriesFrom s (s.doCreate now parent name mode flags).2 fun inode cached =>
      cached.cachedAt = now.instant ∧
        ∃ fh, (s.doCreate now parent name mode flags).1 = .ok (inode, cached.attr, fh) := by
  unfold doCreate
  split
  · exact .of_same rfl
  · dsimp only
    split
    · exact .of_same rfl
    · intro inode cached hc
      rcases MetadataCache.putAttr_entry hc with ⟨hinode, hcached⟩ | hold
      · right
        rw [hcached, hinode]
        exact ⟨rfl, _, rfl⟩
      · exact .inl hold

theorem doMkdir_entries (s : ObsFsCore) (now : Now) (parent : ℕ) (name : OsStr) (mode : ℕ) :
    EntriesFrom s (s.doMkdir now parent name mode).2 fun inode cached =>
      cached.cachedAt = now.instant ∧
        (s.doMkdir now parent name mode).1 = .ok (inode, cached.attr) := by
  unfold doMkdir
  split
  · exact .of_same rfl
  · dsimp only
    split
    · exact .of_same rfl
    · intro inode cached hc
      rcases MetadataCache.putAttr_entry hc with ⟨hinode, hcached⟩ | hold
      · right
        rw [hcached, hinode]
        exact ⟨rfl, rfl⟩
      · exact .inl hold

theorem doWrite_entries (s : ObsFsCore) (now : Now) (inode fh offset : ℕ) (data : Bytes) :
    EntriesFrom s (s.doWrite now inode fh offset data).2 fun i cached =>
      i = inode ∧ cached.cachedAt = now.instant ∧
        ∃ n old, (s.doWrite now inode fh offset data).1 = .ok n ∧
          (s.metadataCache.getAttr now.instant inode).1 = some old ∧
          cached.attr =
            { old with size := max old.size (u64 (offset + n)), mtime := now.system } := by
  have hkept : ∀ i cached, AList.lookup i
      (s.metadataCache.getAttr now.instant inode).2.attrCache = some cached →
        AList.lookup i s.metadataCache.attrCache = some cached :=
    fun i cached hc => MetadataCache.lookup_getAttr hc
  unfold doWrite
  split
  · exact .of_same rfl
  · dsimp only
    split
    · exact .of_kept hkept
    · exact .of_kept hkept
    · intro i cached hc
      rcases MetadataCache.updateAttr_entry hc with ⟨hi, old, hold, hcached⟩ | hbefore
      · right
        have hfresh := s.metadataCache.lookup_after_getAttr now.instant inode
        rw [hold] at hfresh
        rw [hcached]
        exact ⟨hi, rfl, _, old.attr, rfl, hfresh.symm, rfl⟩
      · exact .inl (hkept i cached hbefore)

theorem doUnlink_shrinks (s : ObsFsCore) (parent : ℕ) (name : OsStr) :
    s.metadataCache.Shrinks (s.doUnlink parent name).2.metadataCache := by
  unfold doUnlink
  split
  · exact .refl _
  · dsimp only
    split
    · exact .refl _
    · split
      · exact (MetadataCache.invalidate_shrinks ..).trans (MetadataCache.invalidateDir_shrinks ..)
      · exact MetadataCache.invalidateDir_shrinks ..

theorem doRmdir_shrinks (s : ObsFsCore) (parent : ℕ) (name : OsStr) :
    s.metadataCache.Shrinks (s.doRmdir parent name).2.metadataCache := by
  unfold doRmdir
  split
  · exact .refl _
  · dsimp only
    split
    · exact .refl _
    · split
      · exact .refl _
      · split
        · exact (MetadataCache.invalidate_shrinks ..).trans
            (MetadataCache.invalidateDir_shrinks ..)
        · exact MetadataCache.invalidateDir_shrinks ..

theorem doRename_shrinks (s : ObsFsCore) (now : Now) (parent : ℕ) (name : OsStr)
    (newParent : ℕ) (newName : OsStr) :
    s.metadataCache.Shrinks (s.doRename now parent name newParent newName).2.metadataCache := by
  have hdirs : ∀ c : MetadataCache, c.Shrinks
      (if parent ≠ newParent then (c.invalidateDir parent).invalidateDir newParent
        else c.invalidateDir parent) := by
    intro c
    split
    · exact (c.invalidateDir_shrinks parent).trans (MetadataCache.invalidateDir_shrinks ..)
    · exact c.invalidateDir_shrinks parent
  unfold doRename
  split
  · dsimp only
    split
    · exact .refl _
    · split
      · exact .refl _
      · apply MetadataCache.Shrinks.trans _ (hdirs _)
        split
        · exact MetadataCache.invalidate_shrinks ..
        · exact .refl _
  · exact .refl _

theorem doRelease_shrinks (s : ObsFsCore) (inode fh : ℕ) :
    s.metadataCache.Shrinks (s.doRelease inode fh).2.metadataCache := by
  unfold doRelease
  split
  · exact ⟨rfl, fun _ _ hc => Table.lookup_of_erase hc⟩
  · exact .refl _
  · exact .refl _

theorem doTruncate_shrinks (s : ObsFsCore) (now : Now) (inode size : ℕ) :
    s.metadataCache.Shrinks (s.doTruncate now inode size).2.metadataCache := by
  unfold doTruncate
  split
  · exact .refl _
  · split
    · exact .refl _
    · exact .refl _
    · exact .refl _

/-- Operations that ask the storage nothing about names only drop entries. -/
theorem dropping_shrinks (s : ObsFsCore) {op : FsOp}
    (hop : match op with
      | .lookup .. | .readdir .. | .getattr .. | .create .. | .mkdir .. | .write .. => False
      | _ => True) : s.metadataCache.Shrinks (s.step op).metadataCache := by
  cases op with
  | read now inode fh offset size =>
    obtain ⟨-, -, -, hcache⟩ := s.doRead_frame now inode fh offset size
    exact .of_eq hcache
  | prefetch now n permit =>
    obtain ⟨-, -, -, hcache⟩ := s.prefetchTask_frame now n permit
    exact .of_eq hcache
  | unlink parent name => exact s.doUnlink_shrinks parent name
  | rmdir parent name => exact s.doRmdir_shrinks parent name
  | rename now parent name newParent newName =>
    exact s.doRename_shrinks now parent name newParent newName
  | release inode fh => exact s.doRelease_shrinks inode fh
  | truncate now inode size => exact s.doTruncate_shrinks now inode size
  | openFile | opendir | close | fsync | flush | flushAll | flushExpired => exact .refl _
  | lookup | readdir | getattr | create | mkdir | write => exact hop.elim

/-- An entry that the cache holds after an event was there before, or the event supplies it. -/
theorem event_entries (s : ObsFsCore) (ev : CoreEvent) :
    EntriesFrom s (s.event ev) fun inode cached =>
      ∃ now : Now, cached.cachedAt = now.instant ∧ s.Supplies inode ev now cached.attr := by
  cases ev with
  | foreign objects => exact .of_same rfl
  | cacheGet now i => exact .of_kept fun _ _ hc => MetadataCache.lookup_getAttr hc
  | cachePut now i attr =>
    intro inode cached hc
    rcases MetadataCache.putAttr_entry hc with ⟨hinode, hcached⟩ | hold
    · right
      rw [hcached, hinode]
      exact ⟨now, rfl, .cachePut⟩
    · exact .inl hold
  | op op =>
    cases op with
    | lookup now parent name =>
      apply (s.doLookup_entries now parent name).imp
      intro inode cached hfound
      obtain ⟨path, hpath, hrep, htime⟩ := hfound
      exact ⟨now, htime, .lookup hpath hrep⟩
    | readdir now dir offset =>
      apply (s.doReaddir_entries now dir offset).imp
      intro inode cached hfound
      obtain ⟨path, hpath, hrep, htime⟩ := hfound
      exact ⟨now, htime, .readdir hpath hrep⟩
    | getattr now i =>
      apply (s.doGetattr_entries now i).imp
      intro inode cached hfound
      obtain ⟨hi, htime, path, hpath, hrep⟩ := hfound
      rw [hi] at *
      exact ⟨now, htime, .getattr hpath hrep⟩
    | create now parent name mode flags =>
      apply (s.doCreate_entries now parent name mode flags).imp
      intro inode cached hmade
      obtain ⟨htime, fh, hok⟩ := hmade
      exact ⟨now, htime, .create hok⟩
    | mkdir now parent name mode =>
      apply (s.doMkdir_entries now parent name mode).imp
      intro inode cached hmade
      obtain ⟨htime, hok⟩ := hmade
      exact ⟨now, htime, .mkdir hok⟩
    | write now i fh offset data =>
      apply (s.doWrite_entries now i fh offset data).imp
      intro inode cached hwritten
      obtain ⟨hi, htime, n, old, hok, hold, hattr⟩ := hwritten
      rw [hi, hattr]
      exact ⟨now, htime, .write hok hold⟩
    | _ => exact .of_kept (s.dropping_shrinks trivial).attr

end ObsFsCore

end ObsFuse
