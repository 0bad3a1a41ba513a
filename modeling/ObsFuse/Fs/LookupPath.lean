import ObsFuse.Fs.Core
import ObsFuse.Fs.InodeNames
import ObsFuse.Storage.Requests

/-! # Looking a name up

`do_lookup` as the choice between the caches and three questions to the storage, and what it
leaves in the negative cache. -/

namespace ObsFuse
open Lib

namespace MetadataCache
variable {c : MetadataCache}

theorem isNegative_iff (now : Instant) (path : Str) : (c.isNegative now path).1 = true ↔
    ∃ t, AList.lookup path c.negativeCache = some t ∧ now - t ≤ c.config.negativeTtl := by
  unfold isNegative
  cases h : AList.lookup path c.negativeCache with
  | none => simp
  | some t =>
    dsimp only
    split
    · next hle => exact iff_of_true rfl ⟨t, rfl, hle⟩
    · next hgt =>
      refine iff_of_false Bool.false_ne_true ?_
      intro hex
      obtain ⟨t', ht', hle⟩ := hex
      cases ht'
      exact hgt hle

/-- An entry that has not expired has not expired before either. -/
theorem isNegative_mono {now now' : Instant} (hle : now ≤ now') {path : Str}
    (h : (c.isNegative now' path).1 = true) : (c.isNegative now path).1 = true := by
  rw [isNegative_iff] at h ⊢
  obtain ⟨t, ht, hage⟩ := h
  exact ⟨t, ht, (Nat.sub_le_sub_right hle t).trans hage⟩

theorem isNegative_lookup (now : Instant) (path : Str) {q : Str} {t : Instant}
    (h : AList.lookup q (c.isNegative now path).2.negativeCache = some t) :
    AList.lookup q c.negativeCache = some t := by
  unfold isNegative at h
  split at h
  · split at h
    · exact h
    · exact Table.lookup_of_erase h
  · exact h

@[simp] theorem isNegative_config (now : Instant) (path : Str) :
    (c.isNegative now path).2.config = c.config := by
  unfold isNegative
  split
  · split
    · rfl
    · rfl
  · rfl

@[simp] theorem getAttr_negativeCache (now : Instant) (inode : ℕ) :
    (c.getAttr now inode).2.negativeCache = c.negativeCache := by
  unfold getAttr
  split
  · split
    · rfl
    · rfl
  · rfl

@[simp] theorem getAttr_config (now : Instant) (inode : ℕ) :
    (c.getAttr now inode).2.config = c.config := by
  unfold getAttr
  split
  · split
    · rfl
    · rfl
  · rfl

@[simp] theorem putAttr_negativeCache (now : Instant) (inode : ℕ) (attr : FileAttr) :
    (c.putAttr now inode attr).negativeCache = c.negativeCache := by
  simp only [putAttr]
  split
  · rfl
  · rfl

@[simp] theorem putAttr_config (now : Instant) (inode : ℕ) (attr : FileAttr) :
    (c.putAttr now inode attr).config = c.config := by
  simp only [putAttr]
  split
  · rfl
  · rfl

@[simp] theorem isNegative_attrCache (now : Instant) (path : Str) :
    (c.isNegative now path).2.attrCache = c.attrCache := by
  unfold isNegative
  split
  · split
    · rfl
    · rfl
  · rfl

theorem getAttr_fresh {now : Instant} {inode : ℕ} (h : (c.getAttr now inode).1.isSome) :
    ∃ cached, AList.lookup inode c.attrCache = some cached ∧
      c.getAttr now inode = (some cached.attr, c) := by
  unfold getAttr at h ⊢
  cases hc : AList.lookup inode c.attrCache with
  | none =>
    rw [hc] at h
    cases h
  | some cached =>
    rw [hc] at h
    dsimp only at h ⊢
    split at h
    · cases h
    · next hfresh =>
      rw [if_neg hfresh]
      exact ⟨cached, rfl, rfl⟩

theorem lookup_getAttr {now : Instant} {inode j : ℕ} {cached : CachedAttr}
    (h : AList.lookup j (c.getAttr now inode).2.attrCache = some cached) :
    AList.lookup j c.attrCache = some cached := by
  unfold getAttr at h
  split at h
  · split at h
    · exact Table.lookup_of_erase h
    · exact h
  · exact h

theorem lookup_after_getAttr (now : Instant) (inode : ℕ) :
    (AList.lookup inode (c.getAttr now inode).2.attrCache).map (·.attr) =
      (c.getAttr now inode).1 := by
  unfold getAttr
  cases hc : AList.lookup inode c.attrCache with
  | none =>
    dsimp only
    rw [hc]
    rfl
  | some cached =>
    dsimp only
    split
    · dsimp only
      rw [AList.lookup_erase]
      rfl
    · dsimp only
      rw [hc]
      rfl

theorem lookup_evictOldestAttrs {count j : ℕ} {cached : CachedAttr}
    (h : AList.lookup j (c.evictOldestAttrs count).attrCache = some cached) :
    AList.lookup j c.attrCache = some cached :=
  Table.lookup_of_foldl_erase h

theorem lookup_putAttr {now : Instant} {inode j : ℕ} {attr : FileAttr} {cached : CachedAttr}
    (h : AList.lookup j (c.putAttr now inode attr).attrCache = some cached) :
    j = inode ∧ cached.attr = attr ∨ AList.lookup j c.attrCache = some cached := by
  simp only [putAttr] at h
  rw [Table.lookup_insert_if] at h
  split at h
  · next hj => exact .inl ⟨hj, congrArg CachedAttr.attr (Option.some.inj h).symm⟩
  · right
    split at h
    · exact lookup_evictOldestAttrs h
    · exact h

end MetadataCache

namespace ObsFsCore
variable {s : ObsFsCore}

/-- What the storage knows of a path: the arguments with which it is interned, or nothing. -/
def probe (s : ObsFsCore) (now : Now) (path : Str) :
    Option (Bool × ℕ × (ℕ → FileAttr)) × ObsClient :=
  let obs := s.obsPath path
  let permission := s.config.permission
  match s.obsClient.stat obs with
  | (.ok info, cl) =>
    (some (info.isDir, info.size, fun inode => permission.fromObjectMeta now inode info), cl)
  | (.error _, cl) =>
    match cl.stat (dirKey obs) with
    | (.ok info, cl) =>
      (some (true, 0, fun inode => permission.fromObjectMeta now inode info), cl)
    | (.error _, cl) =>
      match cl.list (dirKey obs) with
      | (.ok (_ :: _), cl) =>
        (some (true, 0, fun inode => permission.newDirectory now inode none), cl)
      | (_, cl) => (none, cl)

theorem lookupRemote_eq (s : ObsFsCore) (now : Now) (path : Str) :
    s.lookupRemote now path =
      match s.probe now path with
      | (some (isDir, size, attr), cl) =>
        let (r, s) := { s with obsClient := cl }.internInode now path isDir size attr
        (.ok r, s)
      | (none, cl) =>
        (.err .notFound, { s with
          obsClient := cl
          metadataCache := s.metadataCache.putNegative now.instant path }) := by
  simp only [lookupRemote, probe]
  generalize s.obsClient.stat (s.obsPath path) = r
  obtain ⟨_ | info, cl⟩ := r
  · dsimp only
    generalize cl.stat (dirKey (s.obsPath path)) = r
    obtain ⟨_ | info, cl⟩ := r
    · dsimp only
      generalize cl.list (dirKey (s.obsPath path)) = r
      obtain ⟨_ | _ | _, cl⟩ := r
      · rfl
      · rfl
      · rfl
    · rfl
  · rfl

theorem probe_sameBucket (s : ObsFsCore) (now : Now) (path : Str) :
    s.obsClient.SameBucket (s.probe now path).2 := by
  simp only [probe]
  have hfile := s.obsClient.stat_sameBucket (s.obsPath path)
  generalize s.obsClient.stat (s.obsPath path) = r at hfile
  obtain ⟨_ | info, cl⟩ := r
  · dsimp only
    have hdir := hfile.trans (cl.stat_sameBucket (dirKey (s.obsPath path)))
    generalize cl.stat (dirKey (s.obsPath path)) = r at hdir
    obtain ⟨_ | info, cl⟩ := r
    · dsimp only
      have hlist := hdir.trans (cl.list_sameBucket (dirKey (s.obsPath path)))
      generalize cl.list (dirKey (s.obsPath path)) = r at hlist
      obtain ⟨_ | _ | _, cl⟩ := r
      · exact hlist
      · exact hlist
      · exact hlist
    · exact hdir
  · exact hfile

/-- The object of a key, its directory marker or anything below it. -/
def Covers (obs key : Str) : Prop := key = obs ∨ obs ++ ['/'] <+: key

instance (obs key : Str) : Decidable (Covers obs key) := inferInstanceAs (Decidable (_ ∨ _))

/-- The bucket holds nothing at the path or below it. -/
def Absent (s : ObsFsCore) (path : Str) : Prop :=
  ∀ key ∈ s.obsClient.objects, ¬Covers (s.obsPath path) key

theorem dirKey_le_slash (obs : Str) : dirKey obs <+: obs ++ ['/'] := by
  unfold dirKey
  induction obs using List.reverseRecOn with
  | nil => exact List.prefix_refl _
  | append_singleton obs c ih =>
    unfold trimEnd at ih ⊢
    rw [List.rdropWhile_concat]
    split
    · next hc =>
      have hslash : c = '/' := by simpa using hc
      rw [hslash]
      exact ih.trans (List.prefix_append ..)
    · exact List.prefix_refl _

/-- A path of which the storage knows nothing is absent, if it does not fail. -/
theorem probe_none (hr : s.obsClient.Reliable) (hf : s.obsClient.backend.Finds) {now : Now}
    {path : Str} (h : (s.probe now path).1 = none) : s.Absent path := by
  simp only [probe] at h
  have hfile := s.obsClient.stat_sameBucket (s.obsPath path)
  generalize hs : s.obsClient.stat (s.obsPath path) = r at h hfile
  obtain ⟨e | info, cl⟩ := r
  · dsimp only at h hfile
    have hdir := hfile.trans (cl.stat_sameBucket (dirKey (s.obsPath path)))
    generalize cl.stat (dirKey (s.obsPath path)) = r at h hdir
    obtain ⟨_ | info, cl'⟩ := r
    · dsimp only at h hdir
      intro key hkey hcovers
      rcases hcovers with heq | hbelow
      · rw [heq] at hkey
        obtain ⟨info, hok⟩ := ObsClient.stat_ok hr hf hkey
        rw [hs] at hok
        cases hok
      · have hkey' : key ∈ cl'.objects := by
          rw [hdir.objects]
          exact hkey
        obtain ⟨info, infos, hok⟩ := ObsClient.list_below_ok (hdir.reliable hr)
          (by rw [hdir.backend]; exact hf) hkey' ((dirKey_le_slash _).trans hbelow)
        have hlist : (cl'.list (dirKey (s.obsPath path))).1 = .ok (info :: infos) := hok
        generalize cl'.list (dirKey (s.obsPath path)) = r at h hlist
        obtain ⟨answer, cl''⟩ := r
        dsimp only at hlist
        rw [hlist] at h
        cases h
    · cases h
  · cases h

/-- What a lookup leaves alone, and the only path that it can newly deny: one that is absent. -/
structure LooksUp (s s' : ObsFsCore) (now : Now) (path : Str) : Prop where
  config : s'.config = s.config
  client : s.obsClient.SameBucket s'.obsClient
  cacheConfig : s'.metadataCache.config = s.metadataCache.config
  negative : ∀ q t, AList.lookup q s'.metadataCache.negativeCache = some t →
    AList.lookup q s.metadataCache.negativeCache = some t ∨
      q = path ∧ t = now.instant ∧
        (s.obsClient.Reliable → s.obsClient.backend.Finds → s.Absent path)

theorem LooksUp.of_cache {s t s' : ObsFsCore} {now : Now} {path : Str} (h : LooksUp t s' now path)
    (hconfig : t.config = s.config) (hclient : t.obsClient = s.obsClient)
    (hcache : t.metadataCache.config = s.metadataCache.config)
    (hneg : ∀ q i, AList.lookup q t.metadataCache.negativeCache = some i →
      AList.lookup q s.metadataCache.negativeCache = some i) : LooksUp s s' now path where
  config := h.config.trans hconfig
  client := hclient ▸ h.client
  cacheConfig := h.cacheConfig.trans hcache
  negative q i hi := by
    rcases h.negative q i hi with hold | ⟨hq, hi', habsent⟩
    · exact .inl (hneg q i hold)
    · refine .inr ⟨hq, hi', ?_⟩
      intro hr hf
      rw [← hclient] at hr hf
      have hab := habsent hr hf
      unfold Absent at hab ⊢
      rw [hclient, obsPath_congr hconfig] at hab
      exact hab

theorem lookupRemote_looksUp (s : ObsFsCore) (now : Now) (path : Str) :
    LooksUp s (s.lookupRemote now path).2 now path := by
  rw [lookupRemote_eq]
  have hclient := s.probe_sameBucket now path
  have hnone := @probe_none s
  generalize hp : s.probe now path = r at hclient
  obtain ⟨_ | ⟨isDir, size, attr⟩, cl⟩ := r
  · refine ⟨rfl, hclient, rfl, ?_⟩
    intro q t ht
    simp only [MetadataCache.putNegative] at ht
    rw [Table.lookup_insert_if] at ht
    split at ht
    · next hq =>
      right
      refine ⟨hq, (Option.some.inj ht).symm, ?_⟩
      intro hr hf
      exact hnone hr hf (congrArg Prod.fst hp)
    · exact .inl ht
  · refine ⟨rfl, hclient, MetadataCache.putAttr_config .., ?_⟩
    intro q t ht
    left
    simp only [internInode] at ht
    rw [MetadataCache.putAttr_negativeCache] at ht
    exact ht

theorem doLookup_looksUp (s : ObsFsCore) (now : Now) (parent : ℕ) (name : OsStr) (path : Str)
    (hpath : ∀ parentPath ∈ s.inodeMgr.getPath parent, path = childPath parentPath name) :
    LooksUp s (s.doLookup now parent name).2 now path := by
  have hself : ∀ cache : MetadataCache, cache.config = s.metadataCache.config →
      (∀ q i, AList.lookup q cache.negativeCache = some i →
        AList.lookup q s.metadataCache.negativeCache = some i) →
      LooksUp s { s with metadataCache := cache } now path :=
    fun cache hconfig hneg => ⟨rfl, .refl _, hconfig, fun q t ht => .inl (hneg q t ht)⟩
  have hremote : ∀ cache : MetadataCache, cache.config = s.metadataCache.config →
      (∀ q i, AList.lookup q cache.negativeCache = some i →
        AList.lookup q s.metadataCache.negativeCache = some i) →
      LooksUp s ({ s with metadataCache := cache }.lookupRemote now path).2 now path :=
    fun cache hconfig hneg => (lookupRemote_looksUp _ now path).of_cache rfl rfl hconfig hneg
  unfold doLookup
  cases hp : s.inodeMgr.getPath parent with
  | none => exact ⟨rfl, .refl _, rfl, fun q t ht => .inl ht⟩
  | some parentPath =>
    dsimp only
    rw [← hpath parentPath hp]
    have hneg : ∀ q i,
        AList.lookup q (s.metadataCache.isNegative now.instant path).2.negativeCache = some i →
          AList.lookup q s.metadataCache.negativeCache = some i :=
      fun q i hi => MetadataCache.isNegative_lookup _ _ hi
    have hconfig := s.metadataCache.isNegative_config now.instant path
    split
    · exact hself _ hconfig hneg
    · split
      · exact hremote _ hconfig hneg
      · next inode _ =>
        have hconfig' := ((s.metadataCache.isNegative now.instant path).2.getAttr_config
          now.instant inode).trans hconfig
        split
        · refine hself _ hconfig' ?_
          rw [MetadataCache.getAttr_negativeCache]
          exact hneg
        · refine hremote _ hconfig' ?_
          rw [MetadataCache.getAttr_negativeCache]
          exact hneg

theorem lookupRemote_ok (hr : s.obsClient.Reliable) (hf : s.obsClient.backend.Finds) {path : Str}
    (hpresent : ¬s.Absent path) (now : Now) : (s.lookupRemote now path).1.isOk = true := by
  rw [lookupRemote_eq]
  have hnone := @probe_none s hr hf now path
  generalize s.probe now path = r at hnone
  obtain ⟨_ | ⟨isDir, size, attr⟩, cl⟩ := r
  · exact absurd (hnone rfl) hpresent
  · rfl

theorem doLookup_ok (hr : s.obsClient.Reliable) (hf : s.obsClient.backend.Finds) {now : Now}
    {parent : ℕ} {parentPath : Str} (hp : s.inodeMgr.getPath parent = some parentPath)
    {name : OsStr} (hpresent : ¬s.Absent (childPath parentPath name))
    (hneg : (s.metadataCache.isNegative now.instant (childPath parentPath name)).1 = false) :
    (s.doLookup now parent name).1.isOk = true := by
  have hremote : ∀ cache : MetadataCache, ({ s with metadataCache := cache }.lookupRemote now
      (childPath parentPath name)).1.isOk = true :=
    fun cache => @lookupRemote_ok { s with metadataCache := cache } hr hf _ hpresent now
  unfold doLookup
  rw [hp]
  dsimp only
  rw [hneg, if_neg Bool.false_ne_true]
  split
  · exact hremote _
  · split
    · rfl
    · exact hremote _

end ObsFsCore

end ObsFuse
