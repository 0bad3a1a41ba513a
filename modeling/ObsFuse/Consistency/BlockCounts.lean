import ObsFuse.Consistency.BuiltAttributes
import ObsFuse.Consistency.SetAttributes

/-! # Block counts

`update_size` and `setattr` set the number of blocks with the size. A write sets the size in the
attribute cache alone, and the count of blocks stays what it was. -/

namespace ObsFuse
open Lib

/-- The requests other than writes and changes of attributes. -/
def FuseRequest.setsNoSize : FuseRequest → Bool
  | .write .. | .setattr .. => false
  | _ => true

theorem ObsFs.serve_addsMatching {s : ObsFsCore} (hb : s.obsClient.backend.SizesFit)
    {r : FuseRequest} (hr : r.setsNoSize = true) : s.AddsMatching (ObsFs.serve s r).2 := by
  cases r with
  | write now inode fh offset data => cases hr
  | setattr now inode set => cases hr
  | lookup now parent name => exact ObsFsCore.doLookup_addsMatching hb now parent name
  | getattr now inode => exact ObsFsCore.doGetattr_addsMatching hb now inode
  | readdir now inode offset => exact ObsFsCore.doReaddir_addsMatching hb now inode offset
  | openFile now inode flags => exact s.openFile_addsMatching now inode flags
  | read now inode fh offset size => exact s.doRead_addsMatching now inode fh offset size
  | release inode fh => exact s.doRelease_addsMatching inode fh
  | fsync inode => exact s.flush_addsMatching inode
  | flush inode => exact s.flush_addsMatching inode
  | opendir now inode flags => exact .of_same rfl (fun _ _ h => h) rfl
  | releasedir inode fh => exact .of_same rfl (fun _ _ h => h) rfl
  | create now parent name mode flags => exact s.doCreate_addsMatching now parent name mode flags
  | mkdir now parent name mode => exact s.doMkdir_addsMatching now parent name mode
  | unlink parent name => exact s.doUnlink_addsMatching parent name
  | rmdir parent name => exact s.doRmdir_addsMatching parent name
  | rename now parent name newParent newName =>
    exact s.doRename_addsMatching now parent name newParent newName
  | access inode => exact .refl s
  | destroy order => exact s.flushAll_addsMatching order

/-! ### Writes -/

/-- A write changes the size of cached attributes alone. -/
theorem FileAttr.grown_blocksMatch_iff {attr : FileAttr} (h : attr.BlocksMatch) (stop : ℕ)
    (mtime : SystemTime) :
    FileAttr.BlocksMatch { attr with size := max attr.size stop, mtime := mtime } ↔
      (attr.kind = .regularFile → blockCount stop ≤ blockCount attr.size) := by
  refine forall_congr' fun hkind => ?_
  dsimp only
  rw [h hkind]
  simp only [blockCount_eq]
  omega

theorem FileAttr.resized_blocksMatch_iff (attr : FileAttr) (size : ℕ) (mtime : SystemTime) :
    FileAttr.BlocksMatch { attr with
      size := size
      blocks := u64 (size + 511) / 512
      mtime := mtime } ↔ (attr.kind = .regularFile → size + 511 < 2 ^ 64) :=
  forall_congr' fun _ => blocks_eq_iff size

namespace ObsFsCore

/-- The write ends within the blocks of the cached attributes, and its end can be rounded up in
64 bits. -/
structure EndsWithinBlocks (s : ObsFsCore) (now : Now) (inode stop : ℕ) : Prop where
  cached : ∀ attr ∈ (s.metadataCache.getAttr now.instant inode).1,
    attr.kind = .regularFile → blockCount stop ≤ blockCount attr.size
  entry : ∀ entry ∈ s.inodeMgr.getEntry inode,
    entry.attr.kind = .regularFile → stop + 511 < 2 ^ 64

variable {s : ObsFsCore}

theorem getAttr_addsMatching (s : ObsFsCore) (now : Instant) (inode : ℕ) :
    s.AddsMatching { s with metadataCache := (s.metadataCache.getAttr now inode).2 } :=
  .of_same rfl (fun _ _ h => MetadataCache.lookup_getAttr h) rfl

theorem writeAttrs_blocksMatch_iff (h : s.BlocksMatch) (now : Now) (inode stop : ℕ) :
    BlocksMatch { s with
      metadataCache := (s.metadataCache.getAttr now.instant inode).2.updateAttr now.instant inode
        fun attr => { attr with size := max attr.size stop, mtime := now.system }
      inodeMgr := s.inodeMgr.updateSize now inode stop } ↔ s.EndsWithinBlocks now inode stop := by
  have hread := (s.getAttr_addsMatching now.instant inode).blocksMatch h
  have hcached := Table.forall_lookup_modify_iff (P := fun cached => cached.attr.BlocksMatch)
    hread.cached inode fun cached => (⟨{ cached.attr with
      size := max cached.attr.size stop
      mtime := now.system }, now.instant⟩ : CachedAttr)
  have hentries := Table.forall_lookup_modify_iff (P := fun entry => entry.attr.BlocksMatch)
    h.entries inode fun entry : InodeEntry => { entry with
      attr := { entry.attr with
        size := stop
        blocks := u64 (stop + 511) / 512
        mtime := now.system }
      cachedAt := now.instant }
  constructor
  · intro hafter
    constructor
    · intro attr hattr
      rw [← MetadataCache.lookup_after_getAttr] at hattr
      obtain ⟨cached, hlookup, rfl⟩ := Option.map_eq_some_iff.mp hattr
      exact (FileAttr.grown_blocksMatch_iff (hread.cached _ _ hlookup) _ _).mp
        (hcached.mp hafter.cached cached hlookup)
    · intro entry hentry
      exact (FileAttr.resized_blocksMatch_iff _ _ _).mp (hentries.mp hafter.entries entry hentry)
  · intro hends
    refine ⟨hcached.mpr ?_, hentries.mpr ?_⟩
    · intro cached hlookup
      refine (FileAttr.grown_blocksMatch_iff (hread.cached _ _ hlookup) _ _).mpr ?_
      apply hends.cached
      rw [← MetadataCache.lookup_after_getAttr, Option.mem_map]
      exact ⟨cached, hlookup, rfl⟩
    · intro entry hentry
      exact (FileAttr.resized_blocksMatch_iff _ _ _).mpr (hends.entry entry hentry)

theorem doWrite_backend (now : Now) (inode fh offset : ℕ) (data : Bytes) :
    (s.doWrite now inode fh offset data).2.obsClient.backend = s.obsClient.backend := by
  cases hp : s.inodeMgr.getPath inode with
  | none =>
    unfold doWrite
    rw [hp]
  | some path =>
    rw [(s.doWrite_buffer hp now fh offset data).2.1]
    exact s.writeBuffer.write_backend ..

theorem doWrite_blocksMatch_iff (h : s.BlocksMatch) (now : Now) (inode fh offset : ℕ)
    (data : Bytes) :
    (s.doWrite now inode fh offset data).2.BlocksMatch ↔
      ∀ path ∈ s.inodeMgr.getPath inode, (s.bufferWrite now inode path offset data).1.isOk →
        s.EndsWithinBlocks now inode (u64 (offset + data.length)) := by
  have hread := (s.getAttr_addsMatching now.instant inode).blocksMatch h
  have hlen : ∀ n, (s.doWrite now inode fh offset data).1 = .ok n → n = data.length :=
    fun n hn => (s.doWrite_ok hn).1
  cases hp : s.inodeMgr.getPath inode with
  | none =>
    unfold doWrite
    rw [hp]
    exact iff_of_true h (by intro path hpath; cases hpath)
  | some path =>
    simp only [Option.mem_some, forall_eq']
    unfold doWrite bufferWrite knownSize at *
    rw [hp] at hlen ⊢
    dsimp only at hlen ⊢
    generalize s.writeBuffer.write s.obsClient now.instant inode (s.obsPath path) offset data
      (((s.metadataCache.getAttr now.instant inode).1.map (·.size)).getD 0) = r at hlen ⊢
    obtain ⟨n | _ | _, wb, cl⟩ := r
    · have hafter := writeAttrs_blocksMatch_iff h now inode (u64 (offset + data.length))
      obtain rfl := hlen n rfl
      constructor
      · intro hwritten _
        exact hafter.mp ⟨hwritten.cached, hwritten.entries⟩
      · intro hends
        have hwritten := hafter.mpr (hends rfl)
        exact ⟨hwritten.cached, hwritten.entries⟩
    · exact iff_of_true ⟨hread.cached, hread.entries⟩ (by intro hok; cases hok)
    · exact iff_of_true ⟨hread.cached, hread.entries⟩ (by intro hok; cases hok)

/-! ### Changes of attributes -/

/-- The attributes that `setattr` works on. -/
def attrsToSet (s : ObsFsCore) (now : Now) (inode : ℕ) : Option FileAttr :=
  (s.metadataCache.getAttr now.instant inode).1.or
    ((s.inodeMgr.getEntry inode).map (·.attr))

/-- The truncation that comes first, if any, succeeds. -/
def Truncates (s : ObsFsCore) (inode : ℕ) (set : SetAttr) : Prop :=
  set.size ≠ none → (s.inodeMgr.getPath inode).isSome ∧ ¬s.TruncationFails set

end ObsFsCore

theorem SetAttr.apply_blocksMatch_iff (set : SetAttr) {attr : FileAttr} (h : attr.BlocksMatch) :
    (set.apply attr).BlocksMatch ↔
      (attr.kind = .regularFile → ∀ size ∈ set.size, size + 511 < 2 ^ 64) := by
  refine forall_congr' fun hkind => ?_
  unfold SetAttr.apply
  dsimp only
  cases set.size with
  | none => exact iff_of_true (h hkind) (by intro size hsize; cases hsize)
  | some size =>
    simp only [Option.mem_some, forall_eq']
    exact blocks_eq_iff size

namespace ObsFs
variable {s : ObsFsCore}

theorem putAttr_blocksMatch_iff (h : s.BlocksMatch) (now : Instant) (inode : ℕ)
    (attr : FileAttr) :
    ObsFsCore.BlocksMatch { s with metadataCache := s.metadataCache.putAttr now inode attr } ↔
      attr.BlocksMatch := by
  constructor
  · intro hafter
    exact hafter.cached inode ⟨attr, now⟩ (AList.lookup_insert ..)
  · intro hattr
    exact (s.putAttr_addsMatching now inode hattr).blocksMatch h

theorem updateAttr_blocksMatch_iff (h : s.BlocksMatch) (now : Now) (inode : ℕ) (set : SetAttr) :
    (updateAttr s now inode set).2.BlocksMatch ↔
      ∀ attr ∈ s.attrsToSet now inode, attr.kind = .regularFile →
        ∀ size ∈ set.size, size + 511 < 2 ^ 64 := by
  have hread := (s.getAttr_addsMatching now.instant inode).blocksMatch h
  have hput := putAttr_blocksMatch_iff hread now.instant inode
  have hbase : ∀ attr ∈ s.attrsToSet now inode, attr.BlocksMatch := by
    intro attr hattr
    rcases Option.or_eq_some_iff.mp hattr with hcached | ⟨-, hentry⟩
    · rw [← MetadataCache.lookup_after_getAttr] at hcached
      obtain ⟨cached, hlookup, rfl⟩ := Option.map_eq_some_iff.mp hcached
      exact hread.cached _ _ hlookup
    · obtain ⟨entry, hlookup, rfl⟩ := Option.map_eq_some_iff.mp hentry
      exact h.entries _ _ hlookup
  unfold updateAttr ObsFsCore.attrsToSet at *
  generalize s.metadataCache.getAttr now.instant inode = r at *
  obtain ⟨_ | attr, cache⟩ := r
  · dsimp only at hread hput hbase ⊢
    cases hentry : s.inodeMgr.getEntry inode with
    | none => exact iff_of_true hread (by intro attr hattr; cases hattr)
    | some entry =>
      rw [hentry] at hbase
      simp only [Option.none_or, Option.map_some, Option.mem_some, forall_eq'] at hbase ⊢
      exact (hput _).trans (set.apply_blocksMatch_iff hbase)
  · dsimp only at hread hput hbase ⊢
    simp only [Option.some_or, Option.mem_some, forall_eq'] at hbase ⊢
    exact (hput _).trans (set.apply_blocksMatch_iff hbase)

theorem updateAttr_backend (s : ObsFsCore) (now : Now) (inode : ℕ) (set : SetAttr) :
    (updateAttr s now inode set).2.obsClient = s.obsClient := by
  unfold updateAttr
  generalize s.metadataCache.getAttr now.instant inode = r
  obtain ⟨_ | attr, cache⟩ := r
  · dsimp only
    split
    · rfl
    · rfl
  · rfl

theorem setattr_backend (s : ObsFsCore) (now : Now) (inode : ℕ) (set : SetAttr) :
    (setattr s now inode set).2.obsClient.backend = s.obsClient.backend := by
  unfold setattr
  split
  · next size _ =>
    have htruncate := (s.doTruncate_addsMatching now inode size).backend
    generalize s.doTruncate now inode size = r at htruncate
    obtain ⟨_ | _ | _, t⟩ := r
    · dsimp only at htruncate ⊢
      rw [updateAttr_backend]
      exact htruncate
    · exact htruncate
    · exact htruncate
  · rw [updateAttr_backend]

theorem setattr_blocksMatch_iff (h : s.BlocksMatch) (now : Now) (inode : ℕ) (set : SetAttr) :
    (setattr s now inode set).2.BlocksMatch ↔
      (s.Truncates inode set → ∀ attr ∈ s.attrsToSet now inode, attr.kind = .regularFile →
        ∀ size ∈ set.size, size + 511 < 2 ^ 64) := by
  unfold ObsFsCore.Truncates
  cases hentry : s.inodeMgr.getEntry inode with
  | some entry =>
    obtain ⟨t, hcache, hmgr, hfailed, hpassed⟩ := setattr_after_truncation hentry now set
    have hkept : t.BlocksMatch := ⟨hcache ▸ h.cached, hmgr ▸ h.entries⟩
    have hbase : t.attrsToSet now inode = s.attrsToSet now inode := by
      unfold ObsFsCore.attrsToSet
      rw [hcache, hmgr]
    have hpath : (s.inodeMgr.getPath inode).isSome :=
      Option.isSome_iff_exists.mpr ⟨entry.path, Option.map_eq_some_iff.mpr ⟨entry, hentry, rfl⟩⟩
    by_cases hfails : s.TruncationFails set
    · rw [hfailed hfails]
      refine iff_of_true hkept ?_
      intro htruncates
      have hsize : set.size ≠ none := by
        rw [hfails.1]
        exact Option.some_ne_none 0
      exact absurd hfails (htruncates hsize).2
    · rw [hpassed hfails, updateAttr_blocksMatch_iff hkept, hbase]
      exact ⟨fun hall _ => hall, fun hall => hall fun _ => ⟨hpath, hfails⟩⟩
  | none =>
    have hpath : s.inodeMgr.getPath inode = none := Option.map_eq_none_iff.mpr hentry
    cases hsize : set.size with
    | none =>
      have hupdate := updateAttr_blocksMatch_iff h now inode set
      unfold setattr
      rw [hsize] at hupdate ⊢
      exact hupdate.trans ⟨fun hall _ => hall, fun hall => hall fun hsome => absurd rfl hsome⟩
    | some size =>
      have hmissing : s.doTruncate now inode size = (.err .notFound, s) := by
        unfold ObsFsCore.doTruncate
        rw [hpath]
      unfold setattr
      rw [hsize, hpath]
      dsimp only
      rw [hmissing]
      refine iff_of_true h ?_
      intro htruncates
      cases (htruncates (Option.some_ne_none size)).1

end ObsFs

/-! ### Runs -/

/-- A write that the buffer takes ends within the blocks of the cached attributes; a new size can
be rounded up in 64 bits. -/
def ObsFsCore.KeepsBlocks (s : ObsFsCore) : FuseRequest → Prop
  | .write now inode _ offset data =>
    ∀ path ∈ s.inodeMgr.getPath inode, (s.bufferWrite now inode path offset data).1.isOk →
      s.EndsWithinBlocks now inode (u64 (offset + data.length))
  | .setattr now inode set =>
    s.Truncates inode set → ∀ attr ∈ s.attrsToSet now inode, attr.kind = .regularFile →
      ∀ size ∈ set.size, size + 511 < 2 ^ 64
  | _ => True

instance (s : ObsFsCore) (now : Now) (inode stop : ℕ) :
    Decidable (s.EndsWithinBlocks now inode stop) :=
  decidable_of_iff
    ((∀ attr ∈ (s.metadataCache.getAttr now.instant inode).1,
        attr.kind = .regularFile → blockCount stop ≤ blockCount attr.size) ∧
      ∀ entry ∈ s.inodeMgr.getEntry inode, entry.attr.kind = .regularFile → stop + 511 < 2 ^ 64)
    ⟨fun h => ⟨h.1, h.2⟩, fun h => ⟨h.cached, h.entry⟩⟩

instance (s : ObsFsCore) (inode : ℕ) (set : SetAttr) : Decidable (s.Truncates inode set) :=
  inferInstanceAs (Decidable (_ → _ ∧ ¬(_ ∧ _)))

instance decidableKeepsBlocks (s : ObsFsCore) : (r : FuseRequest) → Decidable (s.KeepsBlocks r)
  | .write .. => inferInstanceAs (Decidable (∀ path ∈ _, _ → _))
  | .setattr .. => inferInstanceAs (Decidable (_ → ∀ attr ∈ _, _ → ∀ size ∈ _, _))
  | .lookup .. | .getattr .. | .openFile .. | .read .. | .release .. | .fsync .. | .opendir ..
  | .readdir .. | .releasedir .. | .create .. | .mkdir .. | .unlink .. | .rmdir .. | .rename ..
  | .flush .. | .access .. | .destroy .. => inferInstanceAs (Decidable True)

def ObsFs.step (s : ObsFsCore) (r : FuseRequest) : ObsFsCore := (ObsFs.serve s r).2

theorem ObsFs.serve_backend (s : ObsFsCore) (hb : s.obsClient.backend.SizesFit)
    (r : FuseRequest) : (ObsFs.serve s r).2.obsClient.backend = s.obsClient.backend := by
  cases hr : r.setsNoSize with
  | true => exact (serve_addsMatching hb hr).backend
  | false =>
    cases r with
    | write now inode fh offset data => exact s.doWrite_backend now inode fh offset data
    | setattr now inode set => exact setattr_backend s now inode set
    | _ => cases hr

theorem ObsFs.serve_blocksMatch_iff {s : ObsFsCore} (hb : s.obsClient.backend.SizesFit)
    (h : s.BlocksMatch) (r : FuseRequest) :
    (ObsFs.serve s r).2.BlocksMatch ↔ s.KeepsBlocks r := by
  cases hr : r.setsNoSize with
  | true =>
    have hkeeps : s.KeepsBlocks r := by
      cases r with
      | write now inode fh offset data => cases hr
      | setattr now inode set => cases hr
      | _ => trivial
    exact iff_of_true ((serve_addsMatching hb hr).blocksMatch h) hkeeps
  | false =>
    cases r with
    | write now inode fh offset data =>
      exact ObsFsCore.doWrite_blocksMatch_iff h now inode fh offset data
    | setattr now inode set => exact setattr_blocksMatch_iff h now inode set
    | _ => cases hr

theorem ObsFsCore.new_blocksMatch (config : Config) (valid : config.validate = .ok ())
    (env : Surroundings) : (ObsFsCore.new config valid env).BlocksMatch := by
  constructor
  · intro i cached h
    cases h
  · intro i entry h
    rcases Table.lookup_insert_cases h with ⟨-, hroot⟩ | ⟨-, hempty⟩
    · rw [hroot]
      exact blocksMatch_directory _ _ _ _ _
    · cases hempty

/-- In every run of requests from a mount, the block counts of all stored attributes match their
sizes in every state exactly when no write goes past the blocks of the cached attributes. -/
theorem blocks_match_iff (config : Config) (valid : config.validate = .ok ())
    (env : Surroundings) (hb : env.client.backend.SizesFit) (reqs : List FuseRequest) :
    (∀ n, (run ObsFs.step (ObsFsCore.new config valid env) (reqs.take n)).BlocksMatch) ↔
      Along ObsFs.step ObsFsCore.KeepsBlocks (ObsFsCore.new config valid env) reqs := by
  apply @forall_states_iff_along _ _ ObsFs.step ObsFsCore.KeepsBlocks
    fun s => s.obsClient.backend.SizesFit
  · intro s r hfit
    unfold ObsFs.step
    rw [ObsFs.serve_backend s hfit r]
    exact hfit
  · intro s r hfit h
    exact ObsFs.serve_blocksMatch_iff hfit h r
  · exact hb
  · exact ObsFsCore.new_blocksMatch config valid env

/-- `Backend.plain`, which reports no objects that are larger than it can round up. -/
def Backend.bounded : Backend where
  stat objects path :=
    match Backend.plain.stat objects path with
    | .ok info => if info.contentLength + 511 < 2 ^ 64 then .ok info else .error .unexpected
    | .error e => .error e
  list := Backend.plain.list
  refusesRead := Backend.plain.refusesRead
  refusesCopy := Backend.plain.refusesCopy

theorem Backend.bounded_sizesFit : Backend.bounded.SizesFit := by
  intro objects path info h
  unfold bounded at h
  dsimp only at h
  split at h
  · split at h
    · next hfits =>
      cases h
      exact hfits
    · cases h
  · cases h

def Surroundings.boundedBucket : Surroundings :=
  .still { ObsClient.fresh with backend := .bounded }

def boundedMount : ObsFsCore := ObsFsCore.new .basic Config.basic_valid .boundedBucket

/-- A file is made, resized to one byte and written to that size. -/
theorem resized_file_blocks_match :
    let reqs : List FuseRequest :=
      [.create ⟨1, 1⟩ rootInode ['f'.toUInt8] 0o644 0,
        .setattr ⟨2, 2⟩ 2 { SetAttr.none with size := some 1 },
        .write ⟨3, 3⟩ 2 1 0 [7]]
    (run ObsFs.step boundedMount reqs).BlocksMatch := by
  intro reqs
  have hfits : Surroundings.boundedBucket.client.backend.SizesFit := Backend.bounded_sizesFit
  exact (blocks_match_iff .basic Config.basic_valid .boundedBucket hfits reqs).mpr (by decide) 3

/-- A file is made and one byte is written to it: the cached attributes have its size and no
block. -/
theorem first_write_counts_no_block :
    let s := run ObsFs.step boundedMount
      [.create ⟨1, 1⟩ rootInode ['f'.toUInt8] 0o644 0, .write ⟨2, 2⟩ 2 1 0 [7]]
    let attr : FileAttr :=
      { Config.basic.permission.newFile ⟨1, 1⟩ 2 (some 0o644) with size := 1, mtime := 2 }
    (AList.lookup 2 s.metadataCache.attrCache).map (·.attr) = some attr ∧
      attr.kind = .regularFile ∧ attr.blocks = 0 ∧ ¬s.BlocksMatch := by
  intro s attr
  have hattr : (AList.lookup 2 s.metadataCache.attrCache).map (·.attr) = some attr := by decide
  refine ⟨hattr, rfl, rfl, ?_⟩
  intro h
  obtain ⟨cached, hlookup, hcached⟩ := Option.map_eq_some_iff.mp hattr
  have hmatch := h.cached 2 cached hlookup
  rw [hcached] at hmatch
  exact absurd hmatch (by decide)

end ObsFuse
