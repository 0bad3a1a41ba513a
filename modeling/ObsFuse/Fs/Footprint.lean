import ObsFuse.Cache.BufferRequests
import ObsFuse.Fs.CacheSources

/-! # Which objects an event may change

The requests of an operation are for the object that it is directed at, or for the objects of
buffered files. Here is what each request, each call of the write buffer and each event leaves
of the bucket, and that none of them changes the settings or the storage library. -/

namespace ObsFuse
open Lib

/-- At most the objects of the keys in `K` have changed; the storage works as before. -/
structure ObsClient.ChangesIn (K : Str → Prop) (cl cl' : ObsClient) : Prop where
  faults : cl'.faults = cl.faults
  backend : cl'.backend = cl.backend
  objects : ∀ key, ¬K key → AList.lookup key cl'.objects = AList.lookup key cl.objects

namespace ObsClient
variable {K : Str → Prop} {cl cl' cl'' : ObsClient}

theorem SameBucket.changesIn (h : SameBucket cl cl') : cl.ChangesIn K cl' where
  faults := h.faults
  backend := h.backend
  objects key _ := by rw [h.objects]

theorem ChangesIn.refl (cl : ObsClient) : cl.ChangesIn K cl := (SameBucket.refl cl).changesIn

theorem ChangesIn.trans (h : cl.ChangesIn K cl') (h' : cl'.ChangesIn K cl'') :
    cl.ChangesIn K cl'' where
  faults := h'.faults.trans h.faults
  backend := h'.backend.trans h.backend
  objects key hk := (h'.objects key hk).trans (h.objects key hk)

theorem ChangesIn.reliable (h : cl.ChangesIn K cl') (hr : cl.Reliable) : cl'.Reliable := by
  intro n
  rw [h.faults]
  exact hr n

/-- A client that has made no request yet has asked for keys of any set alone. -/
theorem asks_none (cl : ObsClient) : cl.Asks cl.backend K cl.log :=
  ⟨rfl, [], (List.append_nil _).symm, nofun⟩

theorem ne_of_outside {key path : Str} (hk : ¬K key) (hpath : K path) : key ≠ path := by
  intro heq
  rw [heq] at hk
  exact hk hpath

/-- A request that inserts one object at most. -/
theorem ChangesIn.of_insert {path : Str} (hpath : K path) {r : Request} {data : Bytes} :
    cl.ChangesIn K { cl.sent r with objects := cl.objects.insert path data } where
  faults := rfl
  backend := rfl
  objects _ hk := AList.lookup_insert_ne (ne_of_outside hk hpath)

theorem write_changesIn (cl : ObsClient) {path : Str} (hpath : K path) (data : Bytes) :
    cl.ChangesIn K (cl.write path data).2 := by
  unfold write
  split
  · exact (cl.sent_sameBucket _).changesIn
  · exact .of_insert hpath

theorem createDir_changesIn (cl : ObsClient) {path : Str} (hpath : K (dirObject path)) :
    cl.ChangesIn K (cl.createDir path).2 := by
  unfold createDir
  dsimp only
  split
  · exact (cl.sent_sameBucket _).changesIn
  · exact .of_insert hpath

theorem copy_changesIn (cl : ObsClient) (source : Str) {target : Str} (htarget : K target) :
    cl.ChangesIn K (cl.copy source target).2 := by
  unfold copy
  split
  · exact (cl.sent_sameBucket _).changesIn
  · split
    · exact (cl.sent_sameBucket _).changesIn
    · split
      · exact (cl.sent_sameBucket _).changesIn
      · exact .of_insert htarget

theorem delete_changesIn (cl : ObsClient) {path : Str} (hpath : K path) :
    cl.ChangesIn K (cl.delete path).2 := by
  unfold delete
  split
  · exact (cl.sent_sameBucket _).changesIn
  · exact ⟨rfl, rfl, fun _ hk => AList.lookup_erase_ne (ne_of_outside hk hpath)⟩

end ObsClient

/-! ### The write buffer -/

section
variable {K : Str → Prop}

theorem WriteBufferConfig.flushBuffer_changesIn (cfg : WriteBufferConfig) {buf : FileWriteBuffer}
    (hk : K buf.path) (cl : ObsClient) : cl.ChangesIn K (cfg.flushBuffer buf cl).2.2 := by
  rcases cfg.flushBuffer_cases buf cl with
    ⟨-, heq⟩ | ⟨-, ⟨-, ⟨-, heq⟩ | ⟨e, -, heq⟩⟩ | ⟨mp, -, ⟨-, heq⟩ | ⟨-, heq⟩⟩⟩
  · rw [heq]
    exact .refl cl
  · rw [heq]
    exact .of_insert hk
  · rw [heq]
    exact (cl.sent_sameBucket _).changesIn
  · rw [heq]
    exact .refl cl
  · rw [heq]
    exact .refl cl

theorem WriteBufferConfig.writeLocked_changesIn (cfg : WriteBufferConfig) {buf : FileWriteBuffer}
    (hk : K buf.path) {path : Str} (hpath : K path) (cl : ObsClient) (now : Instant)
    (offset : ℕ) (data : Bytes) :
    cl.ChangesIn K (cfg.writeLocked buf cl now path offset data).2.2 := by
  cases hdir : buf.goesDirect offset with
  | true =>
    rw [cfg.writeLocked_direct now path offset data hdir]
    have hflush := @flushBuffer_changesIn K cfg (buf.placed offset data.length) hk cl
    generalize cfg.flushBuffer (buf.placed offset data.length) cl = r at hflush ⊢
    obtain ⟨_ | _ | _, buf', t⟩ := r
    · have hwrite := hflush.trans (t.write_changesIn hpath data)
      dsimp only at hwrite ⊢
      generalize t.write path data = w at hwrite ⊢
      obtain ⟨_ | _, u⟩ := w
      · exact hwrite
      · exact hwrite
    · exact hflush
    · exact hflush
  | false =>
    rw [cfg.writeLocked_buffered now path offset data hdir]
    obtain ⟨hstart, -⟩ := @startMultipart_keeps cfg (buf.appended now offset data) path
    cases hparts : cfg.flushParts (cfg.startMultipart (buf.appended now offset data) path) with
    | none => exact .refl cl
    | some parted =>
      have hparted : K parted.path := by
        rw [(cfg.flushParts_keeps hparts).1, hstart]
        exact hk
      dsimp only
      split
      · have hflush := cfg.flushBuffer_changesIn hparted cl
        generalize cfg.flushBuffer parted cl = r at hflush ⊢
        obtain ⟨_ | _ | _, buf', t⟩ := r
        · exact hflush
        · exact hflush
        · exact hflush
      · exact .refl cl

namespace WriteBuffer
variable {wb : WriteBuffer}

theorem write_changesIn (hwb : wb.KeysIn K) {path : Str} (hpath : K path) (cl : ObsClient)
    (now : Instant) (inode offset : ℕ) (data : Bytes) (fileSize : ℕ) :
    cl.ChangesIn K (wb.write cl now inode path offset data fileSize).2.2 := by
  rw [write_eq]
  exact wb.config.writeLocked_changesIn (hwb.bufferFor hpath now inode fileSize) hpath cl now offset
    data

theorem flush_changesIn (hwb : wb.KeysIn K) (cl : ObsClient) (inode : ℕ) :
    cl.ChangesIn K (wb.flush cl inode).2.2 := by
  unfold flush
  cases hb : wb.buffers.lookup inode with
  | none => exact .refl cl
  | some buf => exact wb.config.flushBuffer_changesIn (hwb inode buf hb) cl

theorem release_changesIn (hwb : wb.KeysIn K) (cl : ObsClient) (inode : ℕ) :
    cl.ChangesIn K (wb.release cl inode).2.2 := by
  cases hb : wb.buffers.lookup inode with
  | none =>
    rw [release_none hb]
    exact .refl cl
  | some buf =>
    rw [release_some hb]
    exact wb.config.flushBuffer_changesIn (hwb inode buf hb) cl

theorem truncate_changesIn (wb : WriteBuffer) (cl : ObsClient) {path : Str} (hpath : K path)
    (now : Instant) (inode size : ℕ) :
    cl.ChangesIn K (wb.truncate cl now inode path size).2.2 := by
  have hwrite := cl.write_changesIn hpath []
  unfold truncate
  dsimp only
  split
  · generalize cl.write path [] = w at hwrite ⊢
    obtain ⟨_ | _, t⟩ := w
    · exact hwrite
    · exact hwrite
  · exact .refl cl

theorem flushEach_changesIn (hwb : wb.KeysIn K) (cl : ObsClient) (p : FileWriteBuffer → Bool)
    (inodes : List ℕ) : cl.ChangesIn K (wb.flushEach cl p inodes).2.2 := by
  induction inodes generalizing wb cl with
  | nil => exact .refl cl
  | cons inode inodes ih =>
    unfold flushEach
    cases hb : wb.buffers.lookup inode with
    | none => exact ih hwb cl
    | some buf =>
      dsimp only
      split
      · have hchanged := wb.config.flushBuffer_changesIn (hwb inode buf hb) cl
        obtain ⟨hkey, -⟩ := wb.config.flushBuffer_asks (hwb inode buf hb) cl.asks_none
        generalize wb.config.flushBuffer buf cl = r at hchanged hkey ⊢
        obtain ⟨_ | _ | _, buf', t⟩ := r
        · exact hchanged.trans (ih (hwb.insert inode hkey) t)
        · exact hchanged
        · exact hchanged
      · exact ih hwb cl

end WriteBuffer

end

/-! ### The operations of the core -/

namespace ObsFsCore

/-- The keys whose objects an operation is directed at. Flushes are directed at none: they store
what was buffered for a key before. -/
def Directed (s : ObsFsCore) (key : Str) : FsOp → Prop
  | .create _ parent name _ _ | .unlink parent name =>
    ∃ parentPath ∈ s.inodeMgr.getPath parent, key = s.obsPath (childPath parentPath name)
  | .mkdir _ parent name _ =>
    ∃ parentPath ∈ s.inodeMgr.getPath parent,
      key = ObsClient.dirObject (s.obsPath (childPath parentPath name))
  | .rmdir parent name =>
    ∃ parentPath ∈ s.inodeMgr.getPath parent, key = dirKey (s.obsPath (childPath parentPath name))
  | .rename _ parent name newParent newName =>
    (∃ parentPath ∈ s.inodeMgr.getPath parent, key = s.obsPath (childPath parentPath name)) ∨
      ∃ parentPath ∈ s.inodeMgr.getPath newParent, key = s.obsPath (childPath parentPath newName)
  | .write _ inode _ _ _ | .truncate _ inode _ =>
    ∃ path ∈ s.inodeMgr.getPath inode, key = s.obsPath path
  | _ => False

/-- What an operation leaves as it is when it changes at most the objects of the keys in `K`. -/
structure StaysIn (K : Str → Prop) (s s' : ObsFsCore) : Prop where
  config : s'.config = s.config
  cacheConfig : s'.metadataCache.config = s.metadataCache.config
  client : s.obsClient.ChangesIn K s'.obsClient
  buffers : s'.writeBuffer.KeysIn K

section
variable {K : Str → Prop} {s s' s'' : ObsFsCore}

theorem StaysIn.refl (hbuf : s.writeBuffer.KeysIn K) : StaysIn K s s :=
  ⟨rfl, rfl, .refl _, hbuf⟩

theorem StaysIn.trans (h : StaysIn K s s') (h' : StaysIn K s' s'') : StaysIn K s s'' where
  config := h'.config.trans h.config
  cacheConfig := h'.cacheConfig.trans h.cacheConfig
  client := h.client.trans h'.client
  buffers := h'.buffers

/-- A step that asks for nothing to be changed, and does not touch the buffers. -/
theorem StaysIn.of_asking (hbuf : s.writeBuffer.KeysIn K) (hconfig : s'.config = s.config)
    (hcache : s'.metadataCache.config = s.metadataCache.config)
    (hclient : s.obsClient.SameBucket s'.obsClient) (hwb : s'.writeBuffer = s.writeBuffer) :
    StaysIn K s s' := by
  refine ⟨hconfig, hcache, hclient.changesIn, ?_⟩
  rw [hwb]
  exact hbuf

theorem lookup_staysIn (hbuf : s.writeBuffer.KeysIn K) (now : Now) (parent : ℕ) (name : OsStr) :
    StaysIn K s (s.doLookup now parent name).2 := by
  have hpath : ∀ parentPath ∈ s.inodeMgr.getPath parent,
      childPath ((s.inodeMgr.getPath parent).getD []) name = childPath parentPath name := by
    intro parentPath hp
    rw [Option.mem_def.mp hp]
    rfl
  have hlooks := s.doLookup_looksUp now parent name _ hpath
  exact .of_asking hbuf hlooks.config hlooks.cacheConfig hlooks.client
    (s.doLookup_sameFiles now parent name).writeBuffer

theorem internInode_cacheConfig (s : ObsFsCore) (now : Now) (path : Str) (isDir : Bool)
    (size : ℕ) (mk : ℕ → FileAttr) :
    (s.internInode now path isDir size mk).2.metadataCache.config = s.metadataCache.config :=
  MetadataCache.putAttr_config ..

theorem readdirLoop_asks (now : Now) (path : Str) (offset : ℤ) (infos : List ObjectMeta)
    (entryOffset : ℤ) (s : ObsFsCore) :
    (readdirLoop now path offset infos entryOffset s).2.2.obsClient = s.obsClient ∧
      (readdirLoop now path offset infos entryOffset s).2.2.metadataCache.config =
        s.metadataCache.config := by
  induction infos generalizing entryOffset s with
  | nil => exact ⟨rfl, rfl⟩
  | cons info infos ih =>
    unfold readdirLoop
    split
    · exact ih _ s
    · dsimp only
      split
      · exact ih _ s
      · obtain ⟨hclient, hcache⟩ := ih (entryOffset + 1) (s.internInode now
          (joinPath path info.name) info.isDir info.size fun inode =>
            s.config.permission.fromObjectMeta now inode info).2
        exact ⟨hclient, hcache.trans (internInode_cacheConfig ..)⟩

theorem readdir_staysIn (hbuf : s.writeBuffer.KeysIn K) (now : Now) (inode : ℕ) (offset : ℤ) :
    StaysIn K s (s.doReaddir now inode offset).2 := by
  have hsame := s.doReaddir_sameFiles now inode offset
  have hasks : s.obsClient.SameBucket (s.doReaddir now inode offset).2.obsClient ∧
      (s.doReaddir now inode offset).2.metadataCache.config = s.metadataCache.config := by
    unfold doReaddir
    split
    · exact ⟨.refl _, rfl⟩
    · next path _ =>
      dsimp only
      generalize (if s.obsPath path = [] then [] else dirKey (s.obsPath path)) = key
      have hclient : s.obsClient.SameBucket (s.obsClient.listDir key).2 :=
        s.obsClient.list_sameBucket _
      generalize s.obsClient.listDir key = r at hclient ⊢
      obtain ⟨_ | infos, cl⟩ := r
      · exact ⟨hclient, rfl⟩
      · obtain ⟨hloop, hcache⟩ :=
          readdirLoop_asks now path offset infos 3 { s with obsClient := cl }
        dsimp only at hloop hcache hclient ⊢
        rw [hloop]
        exact ⟨hclient, hcache⟩
  exact .of_asking hbuf hsame.config hasks.2 hasks.1 hsame.writeBuffer

theorem getattr_staysIn (hbuf : s.writeBuffer.KeysIn K) (now : Now) (inode : ℕ) :
    StaysIn K s (s.doGetattr now inode).2 := by
  have hsame := s.doGetattr_sameFiles now inode
  have hgot := s.metadataCache.getAttr_config now.instant inode
  have hasks : s.obsClient.SameBucket (s.doGetattr now inode).2.obsClient ∧
      (s.doGetattr now inode).2.metadataCache.config = s.metadataCache.config := by
    unfold doGetattr
    dsimp only
    split
    · exact ⟨.refl _, hgot⟩
    · split
      · exact ⟨.refl _, hgot⟩
      · next path _ =>
        have hclient := s.obsClient.stat_sameBucket
          (obsPath { s with metadataCache := (s.metadataCache.getAttr now.instant inode).2 } path)
        generalize s.obsClient.stat (obsPath { s with
          metadataCache := (s.metadataCache.getAttr now.instant inode).2 } path) = r at hclient ⊢
        obtain ⟨_ | info, cl⟩ := r
        · exact ⟨hclient, hgot⟩
        · exact ⟨hclient, (MetadataCache.putAttr_config ..).trans hgot⟩
  exact .of_asking hbuf hsame.config hasks.2 hasks.1 hsame.writeBuffer

theorem doRead_writeBuffer (s : ObsFsCore) (now : Now) (inode fh offset size : ℕ) :
    (s.doRead now inode fh offset size).2.writeBuffer = s.writeBuffer := by
  cases hp : s.inodeMgr.getPath inode with
  | none =>
    unfold doRead
    rw [hp]
  | some path =>
    rw [doRead_eq s hp]
    split
    · rfl
    · split
      · rfl
      · unfold readRemote
        split
        · rfl
        · rfl

theorem read_staysIn (hbuf : s.writeBuffer.KeysIn K) (now : Now) (inode fh offset size : ℕ) :
    StaysIn K s (s.doRead now inode fh offset size).2 := by
  obtain ⟨hconfig, hclient, -, hcache⟩ := s.doRead_frame now inode fh offset size
  exact .of_asking hbuf hconfig (congrArg MetadataCache.config hcache) hclient
    (s.doRead_writeBuffer now inode fh offset size)

theorem prefetchTask_writeBuffer (s : ObsFsCore) (now : Now) (n : ℕ) (permit : Bool) :
    (s.prefetchTask now n permit).writeBuffer = s.writeBuffer := by
  unfold prefetchTask
  split
  · rfl
  · dsimp only
    split
    · rfl
    · split
      · rfl
      · rfl

theorem prefetch_staysIn (hbuf : s.writeBuffer.KeysIn K) (now : Now) (n : ℕ) (permit : Bool) :
    StaysIn K s (s.prefetchTask now n permit) := by
  obtain ⟨hconfig, hclient, -, hcache⟩ := s.prefetchTask_frame now n permit
  exact .of_asking hbuf hconfig (congrArg MetadataCache.config hcache) hclient
    (s.prefetchTask_writeBuffer now n permit)

theorem write_staysIn (hbuf : s.writeBuffer.KeysIn K) (now : Now) (inode fh offset : ℕ)
    (data : Bytes) (hdir : ∀ path ∈ s.inodeMgr.getPath inode, K (s.obsPath path)) :
    StaysIn K s (s.doWrite now inode fh offset data).2 := by
  have hgot := s.metadataCache.getAttr_config now.instant inode
  unfold doWrite
  cases hp : s.inodeMgr.getPath inode with
  | none => exact .refl hbuf
  | some path =>
    dsimp only
    have hpath := hdir path hp
    generalize hsize : ((s.metadataCache.getAttr now.instant inode).1.map (·.size)).getD 0 = size
    have hclient := WriteBuffer.write_changesIn hbuf hpath s.obsClient now.instant inode offset data
      size
    obtain ⟨hwb, -⟩ := WriteBuffer.write_asks hbuf s.obsClient.asks_none hpath now.instant inode
      offset data size
    generalize s.writeBuffer.write s.obsClient now.instant inode (s.obsPath path) offset data
      size = r at hclient hwb ⊢
    obtain ⟨_ | _ | _, wb, cl⟩ := r
    · exact ⟨rfl, hgot, hclient, hwb⟩
    · exact ⟨rfl, hgot, hclient, hwb⟩
    · exact ⟨rfl, hgot, hclient, hwb⟩

theorem create_staysIn (hbuf : s.writeBuffer.KeysIn K) (now : Now) (parent : ℕ) (name : OsStr)
    (mode flags : ℕ)
    (hdir : ∀ parentPath ∈ s.inodeMgr.getPath parent, K (s.obsPath (childPath parentPath name))) :
    StaysIn K s (s.doCreate now parent name mode flags).2 := by
  unfold doCreate
  cases hp : s.inodeMgr.getPath parent with
  | none => exact .refl hbuf
  | some parentPath =>
    dsimp only
    have hclient := s.obsClient.write_changesIn (hdir parentPath hp) []
    generalize s.obsClient.write (s.obsPath (childPath parentPath name)) [] = r at hclient ⊢
    obtain ⟨_ | _, cl⟩ := r
    · exact ⟨rfl, rfl, hclient, hbuf⟩
    · have hcache := { s with obsClient := cl }.internInode_cacheConfig now
        (childPath parentPath name) false 0 fun inode =>
          s.config.permission.newFile now inode (some mode)
      exact ⟨rfl, hcache, hclient, hbuf⟩

theorem mkdir_staysIn (hbuf : s.writeBuffer.KeysIn K) (now : Now) (parent : ℕ) (name : OsStr)
    (mode : ℕ) (hdir : ∀ parentPath ∈ s.inodeMgr.getPath parent,
      K (ObsClient.dirObject (s.obsPath (childPath parentPath name)))) :
    StaysIn K s (s.doMkdir now parent name mode).2 := by
  unfold doMkdir
  cases hp : s.inodeMgr.getPath parent with
  | none => exact .refl hbuf
  | some parentPath =>
    dsimp only
    have hclient := s.obsClient.createDir_changesIn (hdir parentPath hp)
    generalize s.obsClient.createDir (s.obsPath (childPath parentPath name)) = r at hclient ⊢
    obtain ⟨_ | _, cl⟩ := r
    · exact ⟨rfl, rfl, hclient, hbuf⟩
    · have hcache := { s with obsClient := cl }.internInode_cacheConfig now
        (childPath parentPath name) true 0 fun inode =>
          s.config.permission.newDirectory now inode (some mode)
      exact ⟨rfl, hcache, hclient, hbuf⟩

theorem unlink_staysIn (hbuf : s.writeBuffer.KeysIn K) (parent : ℕ) (name : OsStr)
    (hdir : ∀ parentPath ∈ s.inodeMgr.getPath parent, K (s.obsPath (childPath parentPath name))) :
    StaysIn K s (s.doUnlink parent name).2 := by
  unfold doUnlink
  cases hp : s.inodeMgr.getPath parent with
  | none => exact .refl hbuf
  | some parentPath =>
    dsimp only
    have hclient := s.obsClient.delete_changesIn (hdir parentPath hp)
    generalize s.obsClient.delete (s.obsPath (childPath parentPath name)) = r at hclient ⊢
    obtain ⟨_ | _, cl⟩ := r
    · exact ⟨rfl, rfl, hclient, hbuf⟩
    · dsimp only
      split
      · exact ⟨rfl, rfl, hclient, hbuf⟩
      · exact ⟨rfl, rfl, hclient, hbuf⟩

theorem rmdir_staysIn (hbuf : s.writeBuffer.KeysIn K) (parent : ℕ) (name : OsStr)
    (hdir : ∀ parentPath ∈ s.inodeMgr.getPath parent,
      K (dirKey (s.obsPath (childPath parentPath name)))) :
    StaysIn K s (s.doRmdir parent name).2 := by
  unfold doRmdir
  cases hp : s.inodeMgr.getPath parent with
  | none => exact .refl hbuf
  | some parentPath =>
    dsimp only
    have hlist := s.obsClient.list_sameBucket (dirKey (s.obsPath (childPath parentPath name)))
    generalize s.obsClient.list (dirKey (s.obsPath (childPath parentPath name))) = r at hlist ⊢
    obtain ⟨_ | entries, cl⟩ := r
    · exact ⟨rfl, rfl, hlist.changesIn, hbuf⟩
    · have hclient := hlist.changesIn.trans (cl.delete_changesIn (hdir parentPath hp))
      dsimp only
      split
      · exact ⟨rfl, rfl, hlist.changesIn, hbuf⟩
      · split
        · exact ⟨rfl, rfl, hclient, hbuf⟩
        · exact ⟨rfl, rfl, hclient, hbuf⟩

theorem rename_staysIn (hbuf : s.writeBuffer.KeysIn K) (now : Now) (parent : ℕ) (name : OsStr)
    (newParent : ℕ) (newName : OsStr)
    (hold : ∀ parentPath ∈ s.inodeMgr.getPath parent, K (s.obsPath (childPath parentPath name)))
    (hnew : ∀ parentPath ∈ s.inodeMgr.getPath newParent,
      K (s.obsPath (childPath parentPath newName))) :
    StaysIn K s (s.doRename now parent name newParent newName).2 := by
  unfold doRename
  split
  · next parentPath newParentPath hp hq =>
    dsimp only
    have hcopy := s.obsClient.copy_changesIn (s.obsPath (childPath parentPath name))
      (hnew newParentPath hq)
    generalize s.obsClient.copy (s.obsPath (childPath parentPath name))
      (s.obsPath (childPath newParentPath newName)) = r at hcopy ⊢
    obtain ⟨_ | _, cl⟩ := r
    · exact ⟨rfl, rfl, hcopy, hbuf⟩
    · have hclient := hcopy.trans (cl.delete_changesIn (hold parentPath hp))
      dsimp only at hclient ⊢
      generalize cl.delete (s.obsPath (childPath parentPath name)) = r at hclient ⊢
      obtain ⟨_ | _, cl'⟩ := r
      · exact ⟨rfl, rfl, hclient, hbuf⟩
      · refine ⟨rfl, ?_, hclient, hbuf⟩
        dsimp only
        split
        · split
          · rfl
          · rfl
        · split
          · rfl
          · rfl
  · exact .refl hbuf

theorem release_staysIn (hbuf : s.writeBuffer.KeysIn K) (inode fh : ℕ) :
    StaysIn K s (s.doRelease inode fh).2 := by
  have hclient := WriteBuffer.release_changesIn hbuf s.obsClient inode
  obtain ⟨hwb, -⟩ := WriteBuffer.release_asks hbuf s.obsClient.asks_none inode
  unfold doRelease
  generalize s.writeBuffer.release s.obsClient inode = r at hclient hwb ⊢
  obtain ⟨_ | _ | _, wb, cl⟩ := r
  · exact ⟨rfl, rfl, hclient, hwb⟩
  · exact ⟨rfl, rfl, hclient, hwb⟩
  · exact ⟨rfl, rfl, hclient, hwb⟩

theorem truncate_staysIn (hbuf : s.writeBuffer.KeysIn K) (now : Now) (inode size : ℕ)
    (hdir : ∀ path ∈ s.inodeMgr.getPath inode, K (s.obsPath path)) :
    StaysIn K s (s.doTruncate now inode size).2 := by
  unfold doTruncate
  cases hp : s.inodeMgr.getPath inode with
  | none => exact .refl hbuf
  | some path =>
    dsimp only
    have hclient := s.writeBuffer.truncate_changesIn s.obsClient (hdir path hp) now.instant inode
      size
    obtain ⟨hwb, -⟩ := WriteBuffer.truncate_asks hbuf s.obsClient.asks_none (hdir path hp)
      now.instant inode size
    generalize s.writeBuffer.truncate s.obsClient now.instant inode (s.obsPath path) size = r
      at hclient hwb ⊢
    obtain ⟨_ | _ | _, wb, cl⟩ := r
    · exact ⟨rfl, rfl, hclient, hwb⟩
    · exact ⟨rfl, rfl, hclient, hwb⟩
    · exact ⟨rfl, rfl, hclient, hwb⟩

/-- An operation changes at most the objects that it is directed at or that are buffered for. -/
theorem step_staysIn (hbuf : s.writeBuffer.KeysIn K) {op : FsOp}
    (hdir : ∀ key, s.Directed key op → K key) : StaysIn K s (s.step op) := by
  cases op with
  | lookup now parent name => exact lookup_staysIn hbuf now parent name
  | readdir now inode offset => exact readdir_staysIn hbuf now inode offset
  | getattr now inode => exact getattr_staysIn hbuf now inode
  | read now inode fh offset size => exact read_staysIn hbuf now inode fh offset size
  | prefetch now n permit => exact prefetch_staysIn hbuf now n permit
  | write now inode fh offset data =>
    exact write_staysIn hbuf now inode fh offset data fun path hp => hdir _ ⟨path, hp, rfl⟩
  | create now parent name mode flags =>
    exact create_staysIn hbuf now parent name mode flags fun path hp => hdir _ ⟨path, hp, rfl⟩
  | mkdir now parent name mode =>
    exact mkdir_staysIn hbuf now parent name mode fun path hp => hdir _ ⟨path, hp, rfl⟩
  | unlink parent name =>
    exact unlink_staysIn hbuf parent name fun path hp => hdir _ ⟨path, hp, rfl⟩
  | rmdir parent name =>
    exact rmdir_staysIn hbuf parent name fun path hp => hdir _ ⟨path, hp, rfl⟩
  | rename now parent name newParent newName =>
    exact rename_staysIn hbuf now parent name newParent newName
      (fun path hp => hdir _ (.inl ⟨path, hp, rfl⟩)) fun path hp => hdir _ (.inr ⟨path, hp, rfl⟩)
  | openFile now inode flags | opendir now inode flags | close fh =>
    exact ⟨rfl, rfl, .refl _, hbuf⟩
  | release inode fh => exact release_staysIn hbuf inode fh
  | fsync inode | flush inode =>
    exact ⟨rfl, rfl, WriteBuffer.flush_changesIn hbuf s.obsClient inode,
      (WriteBuffer.flush_asks hbuf s.obsClient.asks_none inode).1⟩
  | flushAll order | flushExpired now order =>
    exact ⟨rfl, rfl, WriteBuffer.flushEach_changesIn hbuf s.obsClient _ _,
      (WriteBuffer.flushEach_asks hbuf s.obsClient.asks_none _ _).1⟩
  | truncate now inode size =>
    exact truncate_staysIn hbuf now inode size fun path hp => hdir _ ⟨path, hp, rfl⟩

end

end ObsFsCore

end ObsFuse
