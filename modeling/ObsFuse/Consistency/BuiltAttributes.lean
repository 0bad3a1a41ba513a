import ObsFuse.Cache.BufferRequests
import ObsFuse.Fs.Fuse
import ObsFuse.Fs.InodeNames
import ObsFuse.Fs.LookupPath
import ObsFuse.Fs.ReadPath
import Mathlib.Algebra.Order.Floor.Div

/-! # Attributes as they are built

Attributes carry the size of a file and the number of its blocks of 512 bytes, and are built with
both. The operations that set no size of their own store attributes as they are built, or keep
the ones that are stored. -/

namespace ObsFuse
open Lib

/-- The blocks of 512 bytes that a size takes. -/
def blockCount (size : ℕ) : ℕ := size ⌈/⌉ 512

theorem blockCount_eq (size : ℕ) : blockCount size = (size + 511) / 512 :=
  Nat.ceilDiv_eq_add_pred_div size 512

/-- The block count of a regular file is its size in blocks, rounded up. -/
def FileAttr.BlocksMatch (attr : FileAttr) : Prop :=
  attr.kind = .regularFile → attr.blocks = blockCount attr.size

instance (attr : FileAttr) : Decidable attr.BlocksMatch := inferInstanceAs (Decidable (_ → _))

/-- A storage library that reports no size within 511 bytes of the end of 64 bits. -/
def Backend.SizesFit (b : Backend) : Prop :=
  ∀ objects path info, b.stat objects path = .ok info → info.contentLength + 511 < 2 ^ 64

/-! ### The attributes as they are built -/

/-- The block count as the code computes it, in 64 bits. -/
theorem blocks_eq_iff (size : ℕ) :
    u64 (size + 511) / 512 = blockCount size ↔ size + 511 < 2 ^ 64 := by
  rw [blockCount_eq]
  unfold u64
  constructor
  · intro h
    have hwrapped : (size + 511) % 2 ^ 64 < 2 ^ 64 := Nat.mod_lt _ (by decide)
    omega
  · intro h
    rw [Nat.mod_eq_of_lt h]

theorem blocksMatch_file_iff (now : SystemTime) (ino size uid gid mode : ℕ) :
    (FileAttr.file now ino size uid gid mode).BlocksMatch ↔ size + 511 < 2 ^ 64 := by
  rw [← blocks_eq_iff]
  exact ⟨fun h => h rfl, fun h _ => h⟩

theorem blocksMatch_directory (now : SystemTime) (ino uid gid mode : ℕ) :
    (FileAttr.directory now ino uid gid mode).BlocksMatch := by
  intro h
  cases h

theorem blocksMatch_fromObjectMeta (config : PermissionConfig) (now : Now) (inode : ℕ)
    {info : ObjectMeta} (h : info.size + 511 < 2 ^ 64) :
    (config.fromObjectMeta now inode info).BlocksMatch := by
  unfold PermissionConfig.fromObjectMeta
  dsimp only
  split
  · intro hkind
    cases hkind
  · intro _
    exact (blocks_eq_iff info.size).mpr h

theorem blocksMatch_newFile (config : PermissionConfig) (now : Now) (inode : ℕ)
    (mode : Option ℕ) : (config.newFile now inode mode).BlocksMatch :=
  (blocksMatch_file_iff ..).mpr (by decide)

theorem blocksMatch_newDirectory (config : PermissionConfig) (now : Now) (inode : ℕ)
    (mode : Option ℕ) : (config.newDirectory now inode mode).BlocksMatch :=
  blocksMatch_directory _ _ _ _ _

/-! ### The sizes that the storage reports -/

namespace ObsClient
variable {cl : ObsClient}

theorem stat_size (hb : cl.backend.SizesFit) {path : Str} {info : ObjectMeta}
    (h : (cl.stat path).1 = .ok info) : info.size + 511 < 2 ^ 64 := by
  unfold stat at h
  split at h
  · cases h
  · split at h
    · cases h
    · next found hfound =>
      cases h
      exact hb _ _ _ hfound

theorem statAll_size (hb : cl.backend.SizesFit) {paths : List Str} {infos : List ObjectMeta}
    (h : (cl.statAll paths).1 = .ok infos) : ∀ info ∈ infos, info.size + 511 < 2 ^ 64 := by
  induction paths generalizing cl infos with
  | nil =>
    cases h
    intro info hinfo
    cases hinfo
  | cons path paths ih =>
    have hhead := @stat_size cl hb path
    have hsame := cl.stat_sameBucket path
    unfold statAll at h
    generalize cl.stat path = r at h hhead hsame
    obtain ⟨_ | first, cl'⟩ := r
    · cases h
    · dsimp only at h hsame
      have htail := @ih cl' (by rw [hsame.backend]; exact hb)
      generalize cl'.statAll paths = r at h htail
      obtain ⟨_ | rest, cl''⟩ := r
      · cases h
      · cases h
        intro info hinfo
        rcases List.mem_cons.mp hinfo with hfirst | hrest
        · rw [hfirst]
          exact hhead rfl
        · exact htail rfl info hrest

theorem list_size (hb : cl.backend.SizesFit) {path : Str} {infos : List ObjectMeta}
    (h : (cl.list path).1 = .ok infos) : ∀ info ∈ infos, info.size + 511 < 2 ^ 64 := by
  unfold list at h
  split at h
  · cases h
  · split at h
    · cases h
    · exact @statAll_size (cl.sent (.list path)) hb _ _ h

end ObsClient

namespace ObsFsCore

theorem probe_size {s : ObsFsCore} (hb : s.obsClient.backend.SizesFit) {now : Now} {path : Str}
    {isDir : Bool} {size : ℕ} {attr : ℕ → FileAttr}
    (h : (s.probe now path).1 = some (isDir, size, attr)) :
    size + 511 < 2 ^ 64 ∧ ∀ inode, (attr inode).BlocksMatch := by
  simp only [probe] at h
  have hsame := s.obsClient.stat_sameBucket (s.obsPath path)
  have hfile := @ObsClient.stat_size s.obsClient hb (s.obsPath path)
  generalize s.obsClient.stat (s.obsPath path) = r at h hsame hfile
  obtain ⟨_ | info, cl⟩ := r
  · dsimp only at h hsame
    have hmarker := @ObsClient.stat_size cl (by rw [hsame.backend]; exact hb)
      (dirKey (s.obsPath path))
    generalize cl.stat (dirKey (s.obsPath path)) = r at h hmarker
    obtain ⟨_ | info, cl'⟩ := r
    · dsimp only at h
      generalize cl'.list (dirKey (s.obsPath path)) = r at h
      obtain ⟨_ | _ | _, cl''⟩ := r
      · cases h
      · cases h
      · cases h
        exact ⟨by decide, fun inode => blocksMatch_newDirectory _ now inode none⟩
    · cases h
      exact ⟨by decide, fun inode => blocksMatch_fromObjectMeta _ _ _ (hmarker rfl)⟩
  · cases h
    exact ⟨hfile rfl, fun inode => blocksMatch_fromObjectMeta _ _ _ (hfile rfl)⟩

/-! ### The attributes that are stored -/

/-- All stored attributes of regular files have matching block counts. -/
structure BlocksMatch (s : ObsFsCore) : Prop where
  cached : ∀ i, ∀ cached ∈ AList.lookup i s.metadataCache.attrCache, cached.attr.BlocksMatch
  entries : ∀ i, ∀ entry ∈ AList.lookup i s.inodeMgr.inodeToEntry, entry.attr.BlocksMatch

/-- The storage library is the same, and each attribute that is stored was stored before for the
same inode or has a matching block count. -/
structure AddsMatching (s s' : ObsFsCore) : Prop where
  backend : s'.obsClient.backend = s.obsClient.backend
  cached : ∀ i cached, AList.lookup i s'.metadataCache.attrCache = some cached →
    AList.lookup i s.metadataCache.attrCache = some cached ∨ cached.attr.BlocksMatch
  entries : ∀ i entry, AList.lookup i s'.inodeMgr.inodeToEntry = some entry →
    (∃ old, AList.lookup i s.inodeMgr.inodeToEntry = some old ∧ old.attr = entry.attr) ∨
      entry.attr.BlocksMatch

namespace AddsMatching
variable {s s' s'' : ObsFsCore}

theorem of_same (hb : s'.obsClient.backend = s.obsClient.backend)
    (hcached : ∀ i cached, AList.lookup i s'.metadataCache.attrCache = some cached →
      AList.lookup i s.metadataCache.attrCache = some cached)
    (hmgr : s'.inodeMgr.inodeToEntry = s.inodeMgr.inodeToEntry) : s.AddsMatching s' := by
  refine ⟨hb, fun i cached h => .inl (hcached i cached h), ?_⟩
  intro i entry h
  rw [hmgr] at h
  exact .inl ⟨entry, h, rfl⟩

theorem refl (s : ObsFsCore) : s.AddsMatching s := of_same rfl (fun _ _ h => h) rfl

theorem trans (h : s.AddsMatching s') (h' : s'.AddsMatching s'') : s.AddsMatching s'' := by
  refine ⟨h'.backend.trans h.backend, ?_, ?_⟩
  · intro i cached hi
    rcases h'.cached i cached hi with hold | hmatch
    · exact h.cached i cached hold
    · exact .inr hmatch
  · intro i entry hi
    rcases h'.entries i entry hi with ⟨old, hold, hattr⟩ | hmatch
    · rcases h.entries i old hold with ⟨older, holder, hattr'⟩ | hmatch
      · exact .inl ⟨older, holder, hattr'.trans hattr⟩
      · rw [hattr] at hmatch
        exact .inr hmatch
    · exact .inr hmatch

theorem blocksMatch (h : s.AddsMatching s') (hs : s.BlocksMatch) : s'.BlocksMatch := by
  constructor
  · intro i cached hi
    rcases h.cached i cached hi with hold | hmatch
    · exact hs.cached i cached hold
    · exact hmatch
  · intro i entry hi
    rcases h.entries i entry hi with ⟨old, hold, hattr⟩ | hmatch
    · rw [← hattr]
      exact hs.entries i old hold
    · exact hmatch

end AddsMatching

theorem lookup_modify_attr {t : Table ℕ InodeEntry} {f : InodeEntry → InodeEntry}
    (hf : ∀ entry, (f entry).attr = entry.attr) {i j : ℕ} {entry : InodeEntry}
    (h : AList.lookup j (t.modify i f) = some entry) :
    ∃ old, AList.lookup j t = some old ∧ old.attr = entry.attr := by
  rw [Table.lookup_modify] at h
  split at h
  · next hj =>
    obtain ⟨old, hold, hnew⟩ := Option.map_eq_some_iff.mp h
    rw [← hnew, hj]
    exact ⟨old, hold, (hf old).symm⟩
  · exact ⟨entry, h, rfl⟩

variable (s : ObsFsCore)

theorem putAttr_addsMatching (now : Instant) (inode : ℕ) {attr : FileAttr}
    (hattr : attr.BlocksMatch) :
    s.AddsMatching { s with metadataCache := s.metadataCache.putAttr now inode attr } := by
  refine ⟨rfl, ?_, fun i entry h => .inl ⟨entry, h, rfl⟩⟩
  intro i cached h
  rcases MetadataCache.lookup_putAttr h with ⟨-, hnew⟩ | hold
  · rw [hnew]
    exact .inr hattr
  · exact .inl hold

theorem getOrCreateInode_addsMatching (now : Now) (path : Str) {isDir : Bool} {size : ℕ}
    (hsize : size + 511 < 2 ^ 64) :
    s.AddsMatching
      { s with inodeMgr := (s.inodeMgr.getOrCreateInode now path isDir size).2 } := by
  refine ⟨rfl, fun i cached h => .inl h, ?_⟩
  intro i entry h
  cases hi : AList.lookup (normalizePath path) s.inodeMgr.pathToInode with
  | some inode =>
    dsimp only at h
    rw [InodeManager.getOrCreateInode_mapped hi] at h
    exact .inl ⟨entry, h, rfl⟩
  | none =>
    simp only [InodeManager.getOrCreateInode, hi] at h
    rw [Table.lookup_insert_if] at h
    split at h
    · right
      cases h
      dsimp only
      split
      · exact blocksMatch_directory _ _ _ _ _
      · exact (blocksMatch_file_iff ..).mpr hsize
    · exact .inl ⟨entry, h, rfl⟩

theorem setChildren_addsMatching (now : Now) (inode : ℕ) (children : List ℕ) :
    s.AddsMatching { s with inodeMgr := s.inodeMgr.setChildren now inode children } := by
  refine ⟨rfl, fun i cached h => .inl h, ?_⟩
  intro i entry h
  refine .inl (lookup_modify_attr ?_ h)
  exact fun _ => rfl

theorem internInode_addsMatching (now : Now) (path : Str) (isDir : Bool) {size : ℕ}
    {attr : ℕ → FileAttr} (hsize : size + 511 < 2 ^ 64)
    (hattr : ∀ inode, (attr inode).BlocksMatch) :
    s.AddsMatching (s.internInode now path isDir size attr).2 :=
  (s.getOrCreateInode_addsMatching now path hsize).trans (putAttr_addsMatching _ _ _ (hattr _))

/-! ### The operations -/

theorem readdirLoop_addsMatching (now : Now) (path : Str) (offset : ℤ) {infos : List ObjectMeta}
    (hsize : ∀ info ∈ infos, info.size + 511 < 2 ^ 64) (entryOffset : ℤ) (s : ObsFsCore) :
    s.AddsMatching (readdirLoop now path offset infos entryOffset s).2.2 := by
  induction infos generalizing entryOffset s with
  | nil => exact .refl s
  | cons info infos ih =>
    have htail := ih fun i hi => hsize i (List.mem_cons_of_mem _ hi)
    have hfits := hsize info (List.mem_cons_self ..)
    unfold readdirLoop
    split
    · exact htail _ s
    · dsimp only
      split
      · exact htail _ s
      · have hentry := s.internInode_addsMatching now (joinPath path info.name) info.isDir hfits
          fun inode => blocksMatch_fromObjectMeta s.config.permission now inode hfits
        exact hentry.trans (htail _ _)

section
variable {s}

theorem withClient_addsMatching {cl : ObsClient} (hb : cl.backend = s.obsClient.backend) :
    s.AddsMatching { s with obsClient := cl } :=
  .of_same hb (fun _ _ h => h) rfl

variable (hb : s.obsClient.backend.SizesFit)

include hb

theorem lookupRemote_addsMatching (now : Now) (path : Str) :
    s.AddsMatching (s.lookupRemote now path).2 := by
  rw [lookupRemote_eq]
  have hsame := s.probe_sameBucket now path
  have hsize := @probe_size s hb now path
  generalize s.probe now path = r at hsame hsize
  obtain ⟨_ | ⟨isDir, size, attr⟩, cl⟩ := r
  · exact .of_same hsame.backend (fun _ _ h => h) rfl
  · obtain ⟨hfits, hattr⟩ := hsize rfl
    exact (withClient_addsMatching hsame.backend).trans
      (internInode_addsMatching _ now path isDir hfits hattr)

theorem doLookup_addsMatching (now : Now) (parent : ℕ) (name : OsStr) :
    s.AddsMatching (s.doLookup now parent name).2 := by
  have hcache : ∀ cache : MetadataCache,
      (∀ i cached, AList.lookup i cache.attrCache = some cached →
        AList.lookup i s.metadataCache.attrCache = some cached) →
      s.AddsMatching { s with metadataCache := cache } :=
    fun cache hcached => .of_same rfl hcached rfl
  have hremote : ∀ (cache : MetadataCache) path,
      (∀ i cached, AList.lookup i cache.attrCache = some cached →
        AList.lookup i s.metadataCache.attrCache = some cached) →
      s.AddsMatching ({ s with metadataCache := cache }.lookupRemote now path).2 :=
    fun cache path hcached => (hcache cache hcached).trans
      (@lookupRemote_addsMatching { s with metadataCache := cache } hb now path)
  unfold doLookup
  split
  · exact .refl s
  · next parentPath _ =>
    have hneg : ∀ i cached, AList.lookup i (s.metadataCache.isNegative now.instant
        (childPath parentPath name)).2.attrCache = some cached →
          AList.lookup i s.metadataCache.attrCache = some cached := by
      intro i cached h
      rw [MetadataCache.isNegative_attrCache] at h
      exact h
    dsimp only
    split
    · exact hcache _ hneg
    · split
      · exact hremote _ _ hneg
      · next inode _ =>
        have hget : ∀ i cached, AList.lookup i ((s.metadataCache.isNegative now.instant
            (childPath parentPath name)).2.getAttr now.instant inode).2.attrCache = some cached →
              AList.lookup i s.metadataCache.attrCache = some cached :=
          fun i cached h => hneg i cached (MetadataCache.lookup_getAttr h)
        split
        · exact hcache _ hget
        · exact hremote _ _ hget

theorem doGetattr_addsMatching (now : Now) (inode : ℕ) :
    s.AddsMatching (s.doGetattr now inode).2 := by
  have hget : s.AddsMatching
      { s with metadataCache := (s.metadataCache.getAttr now.instant inode).2 } :=
    .of_same rfl (fun i cached h => MetadataCache.lookup_getAttr h) rfl
  unfold doGetattr
  generalize s.metadataCache.getAttr now.instant inode = r at hget
  obtain ⟨_ | attr, cache⟩ := r
  · dsimp only at hget ⊢
    split
    · exact hget
    · next path _ =>
      have hsame := s.obsClient.stat_sameBucket (s.obsPath path)
      have hsize := @ObsClient.stat_size s.obsClient hb (s.obsPath path)
      have hpath : obsPath { s with metadataCache := cache } path = s.obsPath path :=
        obsPath_congr rfl path
      rw [hpath]
      generalize s.obsClient.stat (s.obsPath path) = r at hsame hsize
      obtain ⟨_ | info, cl⟩ := r
      · exact hget.trans (withClient_addsMatching hsame.backend)
      · have hattr := blocksMatch_fromObjectMeta s.config.permission now inode (hsize rfl)
        exact (hget.trans (withClient_addsMatching hsame.backend)).trans
          (putAttr_addsMatching _ now.instant inode hattr)
  · exact hget

theorem doReaddir_addsMatching (now : Now) (inode : ℕ) (offset : ℤ) :
    s.AddsMatching (s.doReaddir now inode offset).2 := by
  unfold doReaddir
  split
  · exact .refl s
  · next path _ =>
    dsimp only
    have hsame : ∀ key, s.obsClient.SameBucket (s.obsClient.listDir key).2 :=
      fun key => s.obsClient.list_sameBucket _
    have hsize : ∀ key infos, (s.obsClient.listDir key).1 = .ok infos →
        ∀ info ∈ infos, info.size + 511 < 2 ^ 64 :=
      fun key infos h => ObsClient.list_size hb h
    generalize (if s.obsPath path = [] then [] else dirKey (s.obsPath path)) = key
    have hclient := hsame key
    have hinfos := hsize key
    generalize s.obsClient.listDir key = r at hclient hinfos
    obtain ⟨_ | infos, cl⟩ := r
    · exact withClient_addsMatching hclient.backend
    · have hloop := (withClient_addsMatching hclient.backend).trans
        (readdirLoop_addsMatching now path offset (hinfos infos rfl) 3 { s with obsClient := cl })
      exact hloop.trans (setChildren_addsMatching _ now inode _)

end

theorem doCreate_addsMatching (now : Now) (parent : ℕ) (name : OsStr) (mode flags : ℕ) :
    s.AddsMatching (s.doCreate now parent name mode flags).2 := by
  unfold doCreate
  split
  · exact .refl s
  · next parentPath _ =>
    have hclient := s.obsClient.write_backend (s.obsPath (childPath parentPath name)) []
    have hempty : 0 + 511 < 2 ^ 64 := by decide
    dsimp only
    generalize s.obsClient.write (s.obsPath (childPath parentPath name)) [] = r at hclient
    obtain ⟨_ | _, cl⟩ := r
    · exact withClient_addsMatching hclient
    · have hintern := (withClient_addsMatching hclient).trans
        (internInode_addsMatching { s with obsClient := cl } now (childPath parentPath name) false
          hempty fun inode => blocksMatch_newFile s.config.permission now inode (some mode))
      exact hintern.trans (.of_same rfl (fun _ _ h => h) rfl)

theorem doMkdir_addsMatching (now : Now) (parent : ℕ) (name : OsStr) (mode : ℕ) :
    s.AddsMatching (s.doMkdir now parent name mode).2 := by
  unfold doMkdir
  split
  · exact .refl s
  · next parentPath _ =>
    have hclient := s.obsClient.createDir_backend (s.obsPath (childPath parentPath name))
    have hempty : 0 + 511 < 2 ^ 64 := by decide
    dsimp only
    generalize s.obsClient.createDir (s.obsPath (childPath parentPath name)) = r at hclient
    obtain ⟨_ | _, cl⟩ := r
    · exact withClient_addsMatching hclient
    · have hintern := (withClient_addsMatching hclient).trans
        (internInode_addsMatching { s with obsClient := cl } now (childPath parentPath name) true
          hempty fun inode => blocksMatch_newDirectory s.config.permission now inode (some mode))
      exact hintern.trans (.of_same rfl (fun _ _ h => h) rfl)

/-- What unlinking and removing a directory have in common: an inode is forgotten. -/
theorem forget_addsMatching {cl : ObsClient} (hb : cl.backend = s.obsClient.backend) (inode : ℕ) :
    s.AddsMatching { s with
      obsClient := cl
      metadataCache := s.metadataCache.invalidate inode
      inodeMgr := s.inodeMgr.remove inode } := by
  refine ⟨hb, ?_, ?_⟩
  · intro i cached h
    exact .inl (Table.lookup_of_erase h)
  · intro i entry h
    unfold InodeManager.remove at h
    split at h
    · exact .inl ⟨entry, Table.lookup_of_erase h, rfl⟩
    · exact .inl ⟨entry, h, rfl⟩

theorem doUnlink_addsMatching (parent : ℕ) (name : OsStr) :
    s.AddsMatching (s.doUnlink parent name).2 := by
  unfold doUnlink
  split
  · exact .refl s
  · next parentPath _ =>
    have hclient := s.obsClient.delete_backend (s.obsPath (childPath parentPath name))
    dsimp only
    generalize s.obsClient.delete (s.obsPath (childPath parentPath name)) = r at hclient
    obtain ⟨_ | _, cl⟩ := r
    · exact withClient_addsMatching hclient
    · dsimp only
      split
      · next inode _ =>
        have hforget := s.forget_addsMatching hclient inode
        exact ⟨hforget.backend, hforget.cached, hforget.entries⟩
      · exact .of_same hclient (fun _ _ h => h) rfl

theorem doRmdir_addsMatching (parent : ℕ) (name : OsStr) :
    s.AddsMatching (s.doRmdir parent name).2 := by
  unfold doRmdir
  split
  · exact .refl s
  · next parentPath _ =>
    dsimp only
    generalize dirKey (s.obsPath (childPath parentPath name)) = key
    have hclient := (s.obsClient.list_sameBucket key).backend
    generalize s.obsClient.list key = r at hclient
    obtain ⟨_ | entries, cl⟩ := r
    · exact withClient_addsMatching hclient
    · dsimp only at hclient ⊢
      split
      · exact withClient_addsMatching hclient
      · have hdelete := (cl.delete_backend key).trans hclient
        split
        · next inode _ =>
          have hforget := s.forget_addsMatching hdelete inode
          exact ⟨hforget.backend, hforget.cached, hforget.entries⟩
        · exact .of_same hdelete (fun _ _ h => h) rfl

/-- A rename forgets the attributes of the new name's inode, if there is one. -/
theorem lookup_renamed {c : MetadataCache} {found : Option ℕ} {i : ℕ} {cached : CachedAttr}
    (h : AList.lookup i (match found with
      | some inode => c.invalidate inode
      | none => c).attrCache = some cached) : AList.lookup i c.attrCache = some cached := by
  cases found with
  | none => exact h
  | some inode => exact Table.lookup_of_erase h

theorem doRename_addsMatching (now : Now) (parent : ℕ) (name : OsStr) (newParent : ℕ)
    (newName : OsStr) : s.AddsMatching (s.doRename now parent name newParent newName).2 := by
  unfold doRename
  split
  · next parentPath newParentPath _ _ =>
    dsimp only
    have hclient := s.obsClient.copy_backend (s.obsPath (childPath parentPath name))
      (s.obsPath (childPath newParentPath newName))
    generalize s.obsClient.copy (s.obsPath (childPath parentPath name))
      (s.obsPath (childPath newParentPath newName)) = r at hclient
    obtain ⟨_ | _, cl⟩ := r
    · exact withClient_addsMatching hclient
    · dsimp only at hclient ⊢
      have hdelete := (cl.delete_backend (s.obsPath (childPath parentPath name))).trans hclient
      generalize cl.delete (s.obsPath (childPath parentPath name)) = r at hdelete
      obtain ⟨_ | _, cl'⟩ := r
      · exact withClient_addsMatching hdelete
      · refine ⟨hdelete, ?_, ?_⟩
        · intro i cached h
          left
          dsimp only at h
          split at h
          · exact lookup_renamed h
          · exact lookup_renamed h
        · intro i entry h
          left
          unfold InodeManager.rename at h
          dsimp only at h
          split at h
          · refine lookup_modify_attr ?_ h
            exact fun _ => rfl
          · exact ⟨entry, h, rfl⟩
  · exact .refl s

theorem onWriteBuffer_addsMatching {r : WriteResult Unit × WriteBuffer × ObsClient}
    (hb : r.2.2.backend = s.obsClient.backend) : s.AddsMatching (s.onWriteBuffer r).2 :=
  .of_same hb (fun _ _ h => h) rfl

theorem flush_addsMatching (inode : ℕ) : s.AddsMatching (s.doFlush inode).2 :=
  s.onWriteBuffer_addsMatching (s.writeBuffer.flush_backend s.obsClient inode)

theorem flushAll_addsMatching (order : IterOrder ℕ) : s.AddsMatching (s.flushAll order).2 :=
  s.onWriteBuffer_addsMatching (s.writeBuffer.flushEach_backend s.obsClient _ _)

theorem doRelease_addsMatching (inode fh : ℕ) : s.AddsMatching (s.doRelease inode fh).2 := by
  have hclient := s.writeBuffer.release_backend s.obsClient inode
  unfold doRelease
  generalize s.writeBuffer.release s.obsClient inode = r at hclient
  obtain ⟨_ | _ | _, wb, cl⟩ := r
  · exact .of_same hclient (fun _ _ h => Table.lookup_of_erase h) rfl
  · exact .of_same hclient (fun _ _ h => h) rfl
  · exact .of_same hclient (fun _ _ h => h) rfl

theorem doTruncate_addsMatching (now : Now) (inode size : ℕ) :
    s.AddsMatching (s.doTruncate now inode size).2 := by
  unfold doTruncate
  split
  · exact .refl s
  · next path _ =>
    have hclient := s.writeBuffer.truncate_backend s.obsClient now.instant inode (s.obsPath path)
      size
    generalize s.writeBuffer.truncate s.obsClient now.instant inode (s.obsPath path) size = r
      at hclient
    obtain ⟨_ | _ | _, wb, cl⟩ := r
    · exact .of_same hclient (fun _ _ h => h) rfl
    · exact .of_same hclient (fun _ _ h => h) rfl
    · exact .of_same hclient (fun _ _ h => h) rfl

theorem openFile_addsMatching (now : Now) (inode flags : ℕ) :
    s.AddsMatching (ObsFs.openFile s now inode flags).2 := by
  have hopen : s.AddsMatching (s.doOpen now inode flags).2 := .of_same rfl (fun _ _ h => h) rfl
  unfold ObsFs.openFile
  generalize s.doOpen now inode flags = r at hopen
  obtain ⟨fh, t⟩ := r
  dsimp only at hopen ⊢
  split
  · have htruncate := t.doTruncate_addsMatching now inode 0
    generalize t.doTruncate now inode 0 = r at htruncate
    obtain ⟨_ | _ | _, u⟩ := r
    · exact hopen.trans htruncate
    · exact hopen.trans htruncate
    · exact hopen.trans htruncate
  · exact hopen

theorem doRead_addsMatching (now : Now) (inode fh offset size : ℕ) :
    s.AddsMatching (s.doRead now inode fh offset size).2 := by
  obtain ⟨-, hclient, hmgr, hcache⟩ := s.doRead_frame now inode fh offset size
  refine .of_same hclient.backend ?_ (by rw [hmgr])
  intro i cached h
  rw [hcache] at h
  exact h

end ObsFsCore

end ObsFuse
