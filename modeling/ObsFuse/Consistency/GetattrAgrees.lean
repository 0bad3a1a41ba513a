import ObsFuse.Fs.LookupPath
import ObsFuse.Fs.ReaddirPath
import ObsFuse.Fs.ReadPath
import ObsFuse.Fs.Mount
import ObsFuse.Fs.Steps

/-! # Attributes after their entry has expired

A lookup asks the storage three questions to find a file or a directory; when the attributes
that it cached have expired, `do_getattr` asks one. Here is for which of the inodes that
lookups return the answer is still of the same kind. -/

namespace ObsFuse
open Lib

/-- A storage library with metadata exactly for the objects and for the root of the bucket,
which is a directory. -/
structure Backend.Exact (b : Backend) : Prop where
  found : ∀ objects key, (∃ info, b.stat objects key = .ok info) ↔ key = [] ∨ key ∈ objects
  root : ∀ objects info, b.stat objects [] = .ok info → info.isDir = true

def ObjectMeta.kind (info : ObjectMeta) : FileKind :=
  if info.isDir then .directory else .regularFile

@[simp] theorem PermissionConfig.fromObjectMeta_kind (config : PermissionConfig) (now : Now)
    (inode : ℕ) (info : ObjectMeta) :
    (config.fromObjectMeta now inode info).kind = info.kind := by
  unfold fromObjectMeta ObjectMeta.kind
  cases info.isDir with
  | true => rfl
  | false => rfl

namespace ObsFsCore
variable {s₀ s s' : ObsFsCore}

/-- The kind that a lookup reports of a path when it asks the storage. -/
def kindOf (s : ObsFsCore) (path : Str) : Option FileKind :=
  match (s.obsClient.stat (s.obsPath path)).1 with
  | .ok info => some info.kind
  | .error _ =>
    match (s.obsClient.stat (dirKey (s.obsPath path))).1 with
    | .ok info => some info.kind
    | .error _ =>
      match (s.obsClient.list (dirKey (s.obsPath path))).1 with
      | .ok (_ :: _) => some .directory
      | _ => none

/-- What a lookup finds is of the same kind at all times and in all states with the bucket. -/
theorem probe_kind (hconfig : s.config = s₀.config) (h : s₀.obsClient.SameBucket s.obsClient)
    (hr : s₀.obsClient.Reliable) (now : Now) (path : Str) {r : Bool × ℕ × (ℕ → FileAttr)}
    (hprobe : (s.probe now path).1 = some r) (i : ℕ) : s₀.kindOf path = some (r.2.2 i).kind := by
  unfold kindOf
  unfold probe at hprobe
  rw [obsPath_congr hconfig] at hprobe
  dsimp only at hprobe ⊢
  rw [← h.stat_answer hr (s₀.obsPath path)]
  have hfile := h.trans (s.obsClient.stat_sameBucket (s₀.obsPath path))
  generalize s.obsClient.stat (s₀.obsPath path) = q at hfile hprobe ⊢
  obtain ⟨_ | info, cl⟩ := q
  · dsimp only at hfile hprobe ⊢
    rw [← hfile.stat_answer hr (dirKey (s₀.obsPath path))]
    have hdir := hfile.trans (cl.stat_sameBucket (dirKey (s₀.obsPath path)))
    generalize cl.stat (dirKey (s₀.obsPath path)) = q at hdir hprobe ⊢
    obtain ⟨_ | info, cl⟩ := q
    · dsimp only at hdir hprobe ⊢
      rw [← hdir.list_answer hr (dirKey (s₀.obsPath path))]
      generalize cl.list (dirKey (s₀.obsPath path)) = q at hprobe ⊢
      obtain ⟨_ | _ | _, cl⟩ := q
      · cases hprobe
      · cases hprobe
      · cases hprobe
        rfl
    · cases hprobe
      simp
  · cases hprobe
    simp

/-- What the calls that read leave as it is, and what holds of the attributes that they cache:
a cached inode has a path, and a lookup of the path would report the cached kind. -/
structure Watched (s₀ s : ObsFsCore) : Prop where
  config : s.config = s₀.config
  client : s₀.obsClient.SameBucket s.obsClient
  mapped : s.inodeMgr.Mapped
  below : ∀ i path, s.inodeMgr.getPath i = some path → i < s.inodeMgr.nextInode
  root : s.inodeMgr.getPath rootInode = some []
  cached : ∀ i cached, AList.lookup i s.metadataCache.attrCache = some cached →
    ∃ path, s.inodeMgr.getPath i = some path ∧ s₀.kindOf path = some cached.attr.kind

/-- The inodes keep their paths. -/
def KeepsPaths (s s' : ObsFsCore) : Prop :=
  ∀ i path, s.inodeMgr.getPath i = some path → s'.inodeMgr.getPath i = some path

theorem KeepsPaths.refl (s : ObsFsCore) : KeepsPaths s s := fun _ _ h => h

theorem KeepsPaths.trans {s'' : ObsFsCore} (h : KeepsPaths s s') (h' : KeepsPaths s' s'') :
    KeepsPaths s s'' :=
  fun i path hp => h' i path (h i path hp)

namespace Watched

/-- Nothing changes but requests, and attributes drop out of their cache. -/
theorem of_same (h : Watched s₀ s) (hconfig : s'.config = s.config)
    (hclient : s.obsClient.SameBucket s'.obsClient) (hmgr : s'.inodeMgr = s.inodeMgr)
    (hcache : ∀ i cached, AList.lookup i s'.metadataCache.attrCache = some cached →
      AList.lookup i s.metadataCache.attrCache = some cached) : Watched s₀ s' := by
  refine ⟨hconfig.trans h.config, h.client.trans hclient, ?_, ?_, ?_, ?_⟩
  · rw [hmgr]
    exact h.mapped
  · rw [hmgr]
    exact h.below
  · rw [hmgr]
    exact h.root
  · rw [hmgr]
    exact fun i cached hi => h.cached i cached (hcache i cached hi)

theorem putAttr (h : Watched s₀ s) {inode : ℕ} {path : Str}
    (hpath : s.inodeMgr.getPath inode = some path) (now : Instant) (attr : FileAttr)
    (hkind : s₀.kindOf path = some attr.kind) :
    Watched s₀ { s with metadataCache := s.metadataCache.putAttr now inode attr } := by
  refine ⟨h.config, h.client, h.mapped, h.below, h.root, ?_⟩
  intro i cached hi
  rcases MetadataCache.lookup_putAttr hi with ⟨heq, hattr⟩ | hold
  · rw [heq, hattr]
    exact ⟨path, hpath, hkind⟩
  · exact h.cached i cached hold

/-- A path below the root is interned, with attributes of the kind that a lookup reports. -/
theorem intern (h : Watched s₀ s) (now : Now) {path : Str} (hnormal : normalizePath path = path)
    (isDir : Bool) (size : ℕ) {attr : ℕ → FileAttr}
    (hkind : ∀ i, s₀.kindOf path = some (attr i).kind) (hnext : s.inodeMgr.nextInode + 1 < 2 ^ 64) :
    Watched s₀ (s.internInode now path isDir size attr).2 ∧
      KeepsPaths s (s.internInode now path isDir size attr).2 ∧
      (s.internInode now path isDir size attr).2.inodeMgr.getPath
        (s.internInode now path isDir size attr).1.1 = some path ∧
      (s.internInode now path isDir size attr).2.inodeMgr.nextInode ≤ s.inodeMgr.nextInode + 1 := by
  have hunused : s.inodeMgr.getPath s.inodeMgr.nextInode = none := by
    rw [Option.eq_none_iff_forall_ne_some]
    intro p hp
    exact Nat.lt_irrefl _ (h.below _ _ hp)
  have hmapped := (h.mapped.getOrCreateInode ((s.inodeMgr.getPath_eq_none_iff _).mp hunused) now
    path isDir size).1
  -- the core with the inode, before its attributes are cached
  have hcore : ∀ r, s.inodeMgr.getOrCreateInode now path isDir size = r →
      Watched s₀ { s with inodeMgr := r.2 } ∧ KeepsPaths s { s with inodeMgr := r.2 } ∧
        r.2.getPath r.1 = some path ∧ r.2.nextInode ≤ s.inodeMgr.nextInode + 1 := by
    intro r hr
    cases hp : AList.lookup (normalizePath path) s.inodeMgr.pathToInode with
    | some inode =>
      rw [InodeManager.getOrCreateInode_mapped hp] at hr
      subst hr
      have hpath : s.inodeMgr.getPath inode = some (normalizePath path) := h.mapped.forward _ _ hp
      rw [hnormal] at hpath
      exact ⟨h, .refl s, hpath, Nat.le_succ _⟩
    | none =>
      have hget := InodeManager.getPath_getOrCreateInode hp now isDir size
      have hnew : r.1 = s.inodeMgr.nextInode ∧ r.2.nextInode = s.inodeMgr.nextInode + 1 := by
        rw [← hr]
        simp only [InodeManager.getOrCreateInode]
        rw [hp]
        exact ⟨rfl, u64_eq hnext⟩
      rw [hr] at hget hmapped
      rw [hnormal] at hget
      have hkeeps : KeepsPaths s { s with inodeMgr := r.2 } := by
        intro i p hi
        show r.2.getPath i = some p
        rw [hget, if_neg, hi]
        intro heq
        rw [heq, hunused] at hi
        cases hi
      refine ⟨⟨h.config, h.client, hmapped, ?_, hkeeps _ _ h.root, ?_⟩, hkeeps, ?_, hnew.2.le⟩
      · intro i p hi
        rw [hget] at hi
        show i < r.2.nextInode
        rw [hnew.2]
        split at hi
        · omega
        · exact Nat.lt_succ_of_lt (h.below i p hi)
      · intro i cached hi
        obtain ⟨p, hpath, hkind⟩ := h.cached i cached hi
        exact ⟨p, hkeeps i p hpath, hkind⟩
      · rw [hget, if_pos hnew.1]
  unfold internInode
  obtain ⟨hwatched, hkeeps, hpath, hle⟩ := hcore _ rfl
  exact ⟨hwatched.putAttr hpath now.instant _ (hkind _), hkeeps, hpath, hle⟩

theorem lookupRemote (h : Watched s₀ s) (hr : s₀.obsClient.Reliable) (now : Now) {path : Str}
    (hnormal : normalizePath path = path) (hnext : s.inodeMgr.nextInode + 1 < 2 ^ 64) :
    Watched s₀ (s.lookupRemote now path).2 ∧ KeepsPaths s (s.lookupRemote now path).2 ∧
      ∀ inode attr, (s.lookupRemote now path).1 = .ok (inode, attr) →
        (s.lookupRemote now path).2.inodeMgr.getPath inode = some path ∧
          s₀.kindOf path = some attr.kind := by
  rw [lookupRemote_eq]
  have hasked := s.probe_sameBucket now path
  have hprobe := @probe_kind s₀ s h.config h.client hr now path
  generalize s.probe now path = q at hasked hprobe
  obtain ⟨_ | ⟨isDir, size, attr⟩, cl⟩ := q
  · refine ⟨h.of_same rfl hasked rfl fun _ _ hi => hi, .refl s, ?_⟩
    intro inode attr hok
    cases hok
  · have hclient : Watched s₀ { s with obsClient := cl } :=
      h.of_same rfl hasked rfl fun _ _ hi => hi
    obtain ⟨hwatched, hkeeps, hpath, -⟩ := hclient.intern now hnormal isDir size (hprobe rfl) hnext
    refine ⟨hwatched, hkeeps, ?_⟩
    intro inode attr hok
    cases hok
    exact ⟨hpath, hprobe rfl _⟩

theorem lookup (h : Watched s₀ s) (hr : s₀.obsClient.Reliable) (now : Now) (parent : ℕ)
    {name : OsStr} (hname : '/' ∉ toStringLossy name) (hne : toStringLossy name ≠ [])
    (hnext : s.inodeMgr.nextInode + 1 < 2 ^ 64) :
    Watched s₀ (s.doLookup now parent name).2 ∧ KeepsPaths s (s.doLookup now parent name).2 ∧
      ∀ inode attr, (s.doLookup now parent name).1 = .ok (inode, attr) →
        ∃ path, path ≠ [] ∧ (s.doLookup now parent name).2.inodeMgr.getPath inode = some path ∧
          s₀.kindOf path = some attr.kind := by
  unfold doLookup
  cases hp : s.inodeMgr.getPath parent with
  | none => exact ⟨h, .refl s, nofun⟩
  | some parentPath =>
    obtain ⟨hnormal, hroot⟩ := joinPath_normal (h.mapped.normal _ _ hp) hname hne
    have hasks : ∀ cache : MetadataCache,
        (∀ i cached, AList.lookup i cache.attrCache = some cached →
          AList.lookup i s.metadataCache.attrCache = some cached) →
        Watched s₀ { s with metadataCache := cache } :=
      fun cache hcache => h.of_same rfl (.refl _) rfl hcache
    have hremote : ∀ cache : MetadataCache, Watched s₀ { s with metadataCache := cache } →
        let r := { s with metadataCache := cache }.lookupRemote now (childPath parentPath name)
        Watched s₀ r.2 ∧ KeepsPaths s r.2 ∧ ∀ inode attr, r.1 = .ok (inode, attr) →
          ∃ path, path ≠ [] ∧ r.2.inodeMgr.getPath inode = some path ∧
            s₀.kindOf path = some attr.kind := by
      intro cache hcache
      obtain ⟨hwatched, hkeeps, hfound⟩ := hcache.lookupRemote hr now hnormal hnext
      exact ⟨hwatched, hkeeps, fun inode attr hok => ⟨_, hroot, hfound inode attr hok⟩⟩
    dsimp only
    have hneg : ∀ i cached, AList.lookup i (s.metadataCache.isNegative now.instant
        (childPath parentPath name)).2.attrCache = some cached →
          AList.lookup i s.metadataCache.attrCache = some cached := by
      intro i cached hi
      rw [MetadataCache.isNegative_attrCache] at hi
      exact hi
    split
    · exact ⟨hasks _ hneg, .refl s, nofun⟩
    · split
      · exact hremote _ (hasks _ hneg)
      · next inode hinode =>
        have hattr := hasks ((s.metadataCache.isNegative now.instant
          (childPath parentPath name)).2.getAttr now.instant inode).2
          fun i cached hi => hneg i cached (MetadataCache.lookup_getAttr hi)
        split
        · next attr hcached =>
          refine ⟨hattr, .refl s, ?_⟩
          intro inode' attr' hok
          cases hok
          rw [← MetadataCache.lookup_after_getAttr] at hcached
          obtain ⟨cached, hlookup, heq⟩ := Option.map_eq_some_iff.mp hcached
          have hold := MetadataCache.lookup_getAttr hlookup
          obtain ⟨path, hpath, hkind⟩ := h.cached _ _ (hneg _ _ hold)
          have hname := h.mapped.getPath_of_getInode hinode
          rw [hpath] at hname
          have hchild : path = childPath parentPath name := (Option.some.inj hname).trans hnormal
          rw [heq] at hkind
          exact ⟨path, hchild ▸ hroot, hpath, hkind⟩
        · exact hremote _ hattr

theorem getattr (h : Watched s₀ s) (hr : s₀.obsClient.Reliable) (now : Now) (inode : ℕ) :
    Watched s₀ (s.doGetattr now inode).2 ∧ KeepsPaths s (s.doGetattr now inode).2 := by
  have hattr : Watched s₀
      { s with metadataCache := (s.metadataCache.getAttr now.instant inode).2 } :=
    h.of_same rfl (.refl _) rfl fun _ _ hi => MetadataCache.lookup_getAttr hi
  simp only [doGetattr]
  split
  · exact ⟨hattr, .refl s⟩
  · split
    · exact ⟨hattr, .refl s⟩
    · next path hpath =>
      have hobs := @obsPath_congr s
        { s with metadataCache := (s.metadataCache.getAttr now.instant inode).2 } rfl path
      rw [hobs]
      have hsame := s.obsClient.stat_sameBucket (s.obsPath path)
      have hanswer := h.client.stat_answer hr (s.obsPath path)
      generalize s.obsClient.stat (s.obsPath path) = q at hsame hanswer
      obtain ⟨_ | info, cl⟩ := q
      · exact ⟨hattr.of_same rfl hsame rfl fun _ _ hi => hi, .refl s⟩
      · have hclient : Watched s₀ { s with
            metadataCache := (s.metadataCache.getAttr now.instant inode).2
            obsClient := cl } := hattr.of_same rfl hsame rfl fun _ _ hi => hi
        refine ⟨hclient.putAttr hpath now.instant _ ?_, .refl s⟩
        rw [PermissionConfig.fromObjectMeta_kind]
        unfold kindOf
        rw [← obsPath_congr h.config, ← hanswer]

theorem readdirLoop (h : Watched s₀ s) (now : Now) {path : Str}
    (hnormal : normalizePath path = path) (offset start : ℤ) {infos : List ObjectMeta}
    (hkinds : ∀ info ∈ infos, info.shown = true →
      s₀.kindOf (joinPath path info.name) = some info.kind)
    (hnext : s.inodeMgr.nextInode + infos.length < 2 ^ 64) :
    Watched s₀ (readdirLoop now path offset infos start s).2.2 ∧
      KeepsPaths s (readdirLoop now path offset infos start s).2.2 := by
  induction infos generalizing start s with
  | nil => exact ⟨h, .refl s⟩
  | cons info infos ih =>
    have hrest : ∀ x ∈ infos, x.shown = true → s₀.kindOf (joinPath path x.name) = some x.kind :=
      fun x hx => hkinds x (List.mem_cons_of_mem _ hx)
    rw [List.length_cons] at hnext
    unfold ObsFsCore.readdirLoop
    split
    · exact ih h _ hrest (by omega)
    · dsimp only
      split
      · exact ih h _ hrest (by omega)
      · next hname =>
        have hshown : info.shown = true := by
          unfold ObjectMeta.shown
          rw [decide_eq_false hname]
          rfl
        obtain ⟨hchild, -⟩ := joinPath_normal hnormal (fileName_noSlash info.path)
          fun hnil => hname (.inl hnil)
        have hkind : ∀ i, s₀.kindOf (joinPath path info.name) =
            some (s.config.permission.fromObjectMeta now i info).kind := by
          intro i
          rw [PermissionConfig.fromObjectMeta_kind]
          exact hkinds info (List.mem_cons_self ..) hshown
        obtain ⟨hwatched, hkeeps, -, hle⟩ :=
          h.intern now hchild info.isDir info.size hkind (by omega)
        obtain ⟨hloop, hkept⟩ := ih hwatched (start + 1) hrest (by omega)
        exact ⟨hloop, hkeeps.trans hkept⟩

theorem kindOf_eq (h : Watched s₀ s) (hr : s₀.obsClient.Reliable) (path : Str) :
    s.kindOf path = s₀.kindOf path := by
  unfold kindOf
  rw [obsPath_congr h.config, h.client.stat_answer hr, h.client.stat_answer hr,
    h.client.list_answer hr]

theorem readdir (h : Watched s₀ s) (hr : s₀.obsClient.Reliable) (now : Now) (inode : ℕ) (offset : ℤ)
    (hlists : ∀ path infos, s.Lists inode path infos →
      s.inodeMgr.nextInode + infos.length < 2 ^ 64 ∧ ∀ info ∈ infos, info.shown = true →
        s.kindOf (joinPath path info.name) = some info.kind) :
    Watched s₀ (s.doReaddir now inode offset).2 ∧
      KeepsPaths s (s.doReaddir now inode offset).2 := by
  unfold Lists listingKey at hlists
  unfold doReaddir
  cases hp : s.inodeMgr.getPath inode with
  | none => exact ⟨h, .refl s⟩
  | some path =>
    dsimp only
    have hlist := hlists path
    have hsame : s.obsClient.SameBucket (s.obsClient.listDir
        (if s.obsPath path = [] then [] else dirKey (s.obsPath path))).2 :=
      s.obsClient.list_sameBucket _
    generalize s.obsClient.listDir (if s.obsPath path = [] then [] else dirKey (s.obsPath path)) = q
      at hlist hsame
    obtain ⟨_ | infos, cl⟩ := q
    · exact ⟨h.of_same rfl hsame rfl fun _ _ hi => hi, .refl s⟩
    · obtain ⟨hnext, hkinds⟩ := hlist infos ⟨hp, rfl⟩
      have hclient : Watched s₀ { s with obsClient := cl } :=
        h.of_same rfl hsame rfl fun _ _ hi => hi
      have hkinds' : ∀ info ∈ infos, info.shown = true →
          s₀.kindOf (joinPath path info.name) = some info.kind := by
        intro info hi hshown
        rw [← h.kindOf_eq hr]
        exact hkinds info hi hshown
      obtain ⟨hwatched, hkeeps⟩ := hclient.readdirLoop now (h.mapped.normal _ _ hp) offset 3 hkinds'
        hnext
      dsimp only
      generalize ObsFsCore.readdirLoop now path offset infos 3 { s with obsClient := cl } = q
        at hwatched hkeeps
      obtain ⟨entries, inodes, t⟩ := q
      dsimp only at hwatched hkeeps ⊢
      have hpaths : ∀ i, (t.inodeMgr.setChildren now inode inodes).getPath i =
          t.inodeMgr.getPath i := fun i => InodeManager.getPath_setChildren ..
      refine ⟨⟨hwatched.config, hwatched.client, hwatched.mapped.congr hpaths rfl, ?_, ?_, ?_⟩, ?_⟩
      · intro i p hi
        rw [hpaths] at hi
        exact hwatched.below i p hi
      · exact (hpaths _).trans hwatched.root
      · intro i cached hi
        obtain ⟨p, hpath, hkind⟩ := hwatched.cached i cached hi
        exact ⟨p, (hpaths i).trans hpath, hkind⟩
      · intro i p hi
        exact (hpaths i).trans (hkeeps i p hi)

end Watched

/-- A call that only reads: its name is that of a file, numbers are left for the inodes that it
may need, and what it lists are the kinds that lookups report. -/
def Reads (s : ObsFsCore) : FsOp → Prop
  | .lookup _ _ name => '/' ∉ toStringLossy name ∧ toStringLossy name ≠ [] ∧
      s.inodeMgr.nextInode + 1 < 2 ^ 64
  | .readdir _ inode _ => ∀ path infos, s.Lists inode path infos →
      s.inodeMgr.nextInode + infos.length < 2 ^ 64 ∧ ∀ info ∈ infos, info.shown = true →
        s.kindOf (joinPath path info.name) = some info.kind
  | .getattr .. | .read .. | .openFile .. | .opendir .. | .close _ | .prefetch .. => True
  | _ => False

theorem Watched.step (h : Watched s₀ s) (hr : s₀.obsClient.Reliable) {op : FsOp}
    (hop : s.Reads op) :
    Watched s₀ (s.step op) ∧ KeepsPaths s (s.step op) := by
  have hframe : ∀ {t : ObsFsCore}, t.config = s.config ∧ s.obsClient.SameBucket t.obsClient ∧
      t.inodeMgr = s.inodeMgr ∧ t.metadataCache = s.metadataCache →
        Watched s₀ t ∧ KeepsPaths s t := by
    intro t ht
    obtain ⟨hconfig, hclient, hmgr, hcache⟩ := ht
    refine ⟨h.of_same hconfig hclient hmgr ?_, ?_⟩
    · rw [hcache]
      exact fun _ _ hi => hi
    · intro i p hi
      rw [hmgr, hi]
  cases op with
  | lookup now parent name =>
    obtain ⟨hname, hne, hnext⟩ := hop
    obtain ⟨hwatched, hkeeps, -⟩ := h.lookup hr now parent hname hne hnext
    exact ⟨hwatched, hkeeps⟩
  | readdir now inode offset => exact h.readdir hr now inode offset hop
  | getattr now inode => exact h.getattr hr now inode
  | read now inode fh offset size => exact hframe (s.doRead_frame now inode fh offset size)
  | prefetch now n permit => exact hframe (s.prefetchTask_frame now n permit)
  | openFile now inode flags => exact hframe ⟨rfl, .refl _, rfl, rfl⟩
  | opendir now inode flags => exact hframe ⟨rfl, .refl _, rfl, rfl⟩
  | close fh => exact hframe ⟨rfl, .refl _, rfl, rfl⟩
  | write | create | mkdir | unlink | rmdir | rename | release | fsync | flush | flushAll
  | flushExpired | truncate => cases hop

theorem Watched.run (h : Watched s₀ s) (hr : s₀.obsClient.Reliable) {calls : List FsOp}
    (hreads : Along ObsFsCore.step Reads s calls) :
    Watched s₀ (Lib.run ObsFsCore.step s calls) ∧
      KeepsPaths s (Lib.run ObsFsCore.step s calls) := by
  induction calls generalizing s with
  | nil => exact ⟨h, .refl s⟩
  | cons op calls ih =>
    obtain ⟨hop, hrest⟩ := hreads
    obtain ⟨hstep, hkeeps⟩ := h.step hr hop
    obtain ⟨hrun, hkept⟩ := ih hstep hrest
    exact ⟨hrun, hkeeps.trans hkept⟩

/-- An inode that a lookup of the run has returned, or the root, and the kind that it has. -/
def ReturnedAs (s : ObsFsCore) (calls : List FsOp) (inode : ℕ) (kind : FileKind) : Prop :=
  inode = rootInode ∧ kind = .directory ∨
    ∃ before now parent name after attr, calls = before ++ .lookup now parent name :: after ∧
      ((Lib.run ObsFsCore.step s before).doLookup now parent name).1 = .ok (inode, attr) ∧
      attr.kind = kind

/-- There is an object under the very path of the inode, or it is the root of the bucket; the
object of the root directory is a directory. -/
def HasObject (s : ObsFsCore) (inode : ℕ) : Prop :=
  ∃ path, s.inodeMgr.getPath inode = some path ∧
    (s.obsPath path = [] ∨ s.obsPath path ∈ s.obsClient.objects) ∧
    (path = [] → ∀ info, s.obsClient.backend.stat s.obsClient.objects (s.obsPath path) = .ok info →
      info.isDir = true)

theorem Watched.returnedAs (h : Watched s₀ s₀) (hr : s₀.obsClient.Reliable) {calls : List FsOp}
    (hreads : Along ObsFsCore.step Reads s₀ calls) {inode : ℕ} {kind : FileKind}
    (hret : s₀.ReturnedAs calls inode kind) :
    ∃ path, (Lib.run ObsFsCore.step s₀ calls).inodeMgr.getPath inode = some path ∧
      (path = [] ∧ kind = .directory ∨ path ≠ [] ∧ s₀.kindOf path = some kind) := by
  rcases hret with ⟨hroot, hkind⟩ | ⟨before, now, parent, name, after, attr, hcalls, hok, hkind⟩
  · refine ⟨[], ?_, .inl ⟨rfl, hkind⟩⟩
    rw [hroot]
    exact (h.run hr hreads).1.root
  · rw [hcalls, along_append, along_cons] at hreads
    obtain ⟨hbefore, ⟨hname, hne, hnext⟩, hafter⟩ := hreads
    obtain ⟨hwatched, -⟩ := h.run hr hbefore
    obtain ⟨hlooked, -, hfound⟩ := hwatched.lookup hr now parent hname hne hnext
    obtain ⟨path, hroot, hpath, hpathKind⟩ := hfound inode attr hok
    refine ⟨path, ?_, .inr ⟨hroot, ?_⟩⟩
    · rw [hcalls, run_append, run_cons]
      exact (hlooked.run hr hafter).2 _ _ hpath
    · rw [hpathKind, hkind]

theorem doGetattr_expired {inode : ℕ} {path : Str} (hpath : s.inodeMgr.getPath inode = some path)
    {now : Now} (hexpired : (s.metadataCache.getAttr now.instant inode).1 = none)
    (kind : FileKind) :
    (∃ attr, (s.doGetattr now inode).1 = .ok attr ∧ attr.kind = kind) ↔
      ∃ info, (s.obsClient.stat (s.obsPath path)).1 = .ok info ∧ info.kind = kind := by
  simp only [doGetattr]
  rw [hexpired, hpath]
  dsimp only
  rw [@obsPath_congr s
    { s with metadataCache := (s.metadataCache.getAttr now.instant inode).2 } rfl]
  generalize s.obsClient.stat (s.obsPath path) = q
  obtain ⟨e | info, cl⟩ := q
  · refine iff_of_false ?_ ?_
    · intro h
      obtain ⟨attr, hok, -⟩ := h
      cases hok
    · intro h
      obtain ⟨info, hok, -⟩ := h
      cases hok
  · constructor
    · intro h
      obtain ⟨attr, hok, hkind⟩ := h
      cases hok
      rw [PermissionConfig.fromObjectMeta_kind] at hkind
      exact ⟨info, rfl, hkind⟩
    · intro h
      obtain ⟨info', hok, hkind⟩ := h
      cases hok
      refine ⟨_, rfl, ?_⟩
      rw [PermissionConfig.fromObjectMeta_kind, hkind]

theorem new_watched (config : Config) (valid : config.validate = .ok ()) (env : Surroundings) :
    Watched (.new config valid env) (.new config valid env) where
  config := rfl
  client := .refl _
  mapped := InodeManager.new_mapped ..
  below i path hi := by
    have hroot : i = rootInode := by
      by_contra hne
      have hnone : (ObsFsCore.new config valid env).inodeMgr.getPath i = none := by
        simp only [new, InodeManager.new, InodeManager.getPath]
        rw [AList.lookup_insert_ne hne]
        rfl
      rw [hnone] at hi
      cases hi
    rw [hroot]
    exact Nat.lt_succ_self _
  root := by
    simp only [new, InodeManager.new, InodeManager.getPath]
    rw [AList.lookup_insert]
    rfl
  cached i cached hi := by cases hi

end ObsFsCore

/-- In every run of calls that read, the attributes of an inode that a lookup has returned, or
of the root, are of the same kind after their entry has expired exactly when there is an object
under the path of the inode itself. -/
theorem getattr_agrees_iff (config : Config) (valid : config.validate = .ok ())
    (env : Surroundings) (hr : env.client.Reliable) (hx : env.client.backend.Exact)
    {calls : List FsOp}
    (hreads : Along ObsFsCore.step ObsFsCore.Reads (.new config valid env) calls)
    {inode : ℕ} {kind : FileKind}
    (hret : (ObsFsCore.new config valid env).ReturnedAs calls inode kind) (now : Now)
    (hexpired : ((run ObsFsCore.step (.new config valid env) calls).metadataCache.getAttr
      now.instant inode).1 = none) :
    (∃ attr, ((run ObsFsCore.step (.new config valid env) calls).doGetattr now inode).1 = .ok attr ∧
        attr.kind = kind) ↔
      (run ObsFsCore.step (.new config valid env) calls).HasObject inode := by
  have hstart := ObsFsCore.new_watched config valid env
  obtain ⟨hwatched, -⟩ := hstart.run hr hreads
  obtain ⟨path, hpath, hkind⟩ := hstart.returnedAs hr hreads hret
  have hclient := hwatched.client
  have hkindOf := hwatched.kindOf_eq hr path
  generalize run ObsFsCore.step (.new config valid env) calls = s
    at hpath hexpired hclient hkindOf ⊢
  have hrs : s.obsClient.Reliable := hclient.reliable hr
  have hxs : s.obsClient.backend.Exact := by
    rw [hclient.backend]
    exact hx
  rw [ObsFsCore.doGetattr_expired hpath hexpired]
  have hobject := hxs.found s.obsClient.objects (s.obsPath path)
  constructor
  · intro h
    obtain ⟨info, hok, hsame⟩ := h
    obtain ⟨found, hfound, hinfo⟩ := (ObsClient.stat_ok_iff hrs _ info).mp hok
    refine ⟨path, hpath, hobject.mp ⟨found, hfound⟩, ?_⟩
    intro hroot found' hfound'
    rw [hfound] at hfound'
    cases hfound'
    rcases hkind with ⟨-, hdir⟩ | ⟨hne, -⟩
    · rw [hdir, hinfo] at hsame
      unfold ObjectMeta.kind ObjectMeta.fromOpendal at hsame
      dsimp only at hsame
      split at hsame
      · assumption
      · cases hsame
    · exact absurd hroot hne
  · intro h
    obtain ⟨path', hpath', hin, hisDir⟩ := h
    rw [hpath] at hpath'
    cases hpath'
    obtain ⟨found, hfound⟩ := hobject.mpr hin
    have hok := (ObsClient.stat_ok_iff hrs _ _).mpr ⟨found, hfound, rfl⟩
    refine ⟨_, hok, ?_⟩
    rcases hkind with ⟨hroot, hdir⟩ | ⟨-, hsame⟩
    · have hd := hisDir hroot found hfound
      rw [hdir]
      unfold ObjectMeta.kind ObjectMeta.fromOpendal
      dsimp only
      rw [hd, if_pos rfl]
    · rw [← hkindOf] at hsame
      unfold ObsFsCore.kindOf at hsame
      rw [hok] at hsame
      exact Option.some.inj hsame

/-- A storage library with metadata for the objects and the root of the bucket alone. -/
def Backend.rooted : Backend where
  stat objects path :=
    if path = [] then .ok ⟨0, none, true⟩
    else
      match objects.lookup path with
      | some data => .ok ⟨data.length, none, path.getLast? = some '/'⟩
      | none => .error .notFound
  list objects path := .ok (objects.keys.filter fun k => path.isPrefixOf k)
  refusesRead := Backend.plain.refusesRead
  refusesCopy := Backend.plain.refusesCopy

theorem Backend.rooted_exact : Backend.rooted.Exact where
  found objects key := by
    simp only [rooted]
    by_cases hkey : key = []
    · simp [hkey]
    · rw [if_neg hkey]
      cases hlookup : AList.lookup key objects with
      | none => simp [hkey, AList.lookup_eq_none.mp hlookup]
      | some data =>
        have hin : key ∈ objects := AList.lookup_isSome.mp (by rw [hlookup]; rfl)
        simp [hin]
  root objects info h := by
    cases h
    rfl

/-- A file is looked up, and asked for again when its attributes have expired. -/
theorem file_keeps_its_kind :
    let s := ObsFsCore.new .basic Config.basic_valid (.still (.holding .rooted [['f']]))
    ∃ attr, ((run ObsFsCore.step s [.lookup ⟨0, 0⟩ 1 ['f'.toUInt8]]).doGetattr
      ⟨1000000000000, 1000000000000⟩ 2).1 = .ok attr ∧ attr.kind = .regularFile := by
  intro s
  have hreads : Along ObsFsCore.step ObsFsCore.Reads s [.lookup ⟨0, 0⟩ 1 ['f'.toUInt8]] :=
    ⟨⟨by decide, by decide, by decide⟩, trivial⟩
  have hret : s.ReturnedAs [.lookup ⟨0, 0⟩ 1 ['f'.toUInt8]] 2 .regularFile :=
    .inr ⟨[], ⟨0, 0⟩, 1, ['f'.toUInt8], [], _, rfl, rfl, rfl⟩
  refine (getattr_agrees_iff .basic Config.basic_valid (.still (.holding .rooted [['f']]))
    (fun _ => rfl) Backend.rooted_exact hreads hret ⟨1000000000000, 1000000000000⟩
    (by decide)).mpr ?_
  refine ⟨['f'], by decide, .inr (by decide), ?_⟩
  intro h
  cases h

/-- A directory with an object below it is looked up; when its attributes have expired it is not
found any more. -/
theorem directory_vanishes :
    let s := ObsFsCore.new .basic Config.basic_valid (.still (.holding .rooted [['d', '/', 'x']]))
    let r := s.doLookup ⟨0, 0⟩ 1 ['d'.toUInt8]
    (∃ attr, r.1 = .ok (2, attr) ∧ attr.kind = .directory) ∧
      (r.2.metadataCache.getAttr (1000000000000) 2).1 = none ∧
      (r.2.doGetattr ⟨1000000000000, 1000000000000⟩ 2).1 = .err .notFound := by
  refine ⟨⟨_, rfl, rfl⟩, by decide, by decide⟩

end ObsFuse
