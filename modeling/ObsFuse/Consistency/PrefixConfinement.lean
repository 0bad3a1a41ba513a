import ObsFuse.Cache.BufferRequests
import ObsFuse.Fs.LookupPath
import ObsFuse.Fs.Mount
import ObsFuse.Fs.Names
import ObsFuse.Fs.Steps

/-! # The keys of a mount with a prefix

Keys reach the client straight from an operation, from the buffer of a file, which keeps the
key it was made with, and from a prefetch, which keeps the key of the read that asked for it.
All of them are built by `obs_path`, some with a slash added at the end. -/

namespace ObsFuse
open Lib

/-! ### Keys below a prefix -/

/-- The prefix as configured, the prefix without its slashes at the end, or below that. -/
def Confined (pre key : Str) : Prop :=
  key = trimEnd pre ∨ key = pre ∨ trimEnd pre ++ ['/'] <+: key

instance (pre key : Str) : Decidable (Confined pre key) :=
  inferInstanceAs (Decidable (_ ∨ _ ∨ _))

theorem confined_below (pre rest : Str) : Confined pre (trimEnd pre ++ '/' :: rest) := by
  right
  right
  exact ⟨rest, by rw [List.append_assoc]; rfl⟩

theorem trimEnd_append_slash (s rest : Str) :
    trimEnd (trimEnd s ++ '/' :: rest) = trimEnd s ∨
      ∃ rest', trimEnd (trimEnd s ++ '/' :: rest) = trimEnd s ++ '/' :: rest' := by
  induction rest using List.reverseRecOn with
  | nil =>
    left
    rw [trimEnd_concat, if_pos rfl, trimEnd_trimEnd]
  | append_singleton rest c ih =>
    rw [← List.cons_append, ← List.append_assoc, trimEnd_concat]
    split
    · exact ih
    · exact .inr ⟨rest ++ [c], by rw [List.append_assoc, List.cons_append]⟩

namespace ObsFsCore
variable {s : ObsFsCore} {pre : Str}

theorem obsPath_cases (hpre : s.config.obsPrefix = some pre) (path : Str) :
    s.obsPath path = pre ∨ s.obsPath path = trimEnd pre ++ '/' :: path := by
  unfold obsPath
  rw [hpre]
  dsimp only
  split
  · exact .inl rfl
  · exact .inr rfl

theorem obsPath_confined (hpre : s.config.obsPrefix = some pre) (path : Str) :
    Confined pre (s.obsPath path) := by
  rcases obsPath_cases hpre path with h | h
  · rw [h]
    exact .inr (.inl rfl)
  · rw [h]
    exact confined_below pre path

theorem dirKey_confined (hpre : s.config.obsPrefix = some pre) (path : Str) :
    Confined pre (dirKey (s.obsPath path)) := by
  unfold dirKey
  rcases obsPath_cases hpre path with h | h
  · rw [h]
    exact confined_below pre []
  · rw [h]
    rcases trimEnd_append_slash pre path with htrim | ⟨rest, htrim⟩
    · rw [htrim]
      exact confined_below pre []
    · rw [htrim, List.append_assoc]
      exact confined_below pre (rest ++ ['/'])

theorem dirObject_confined (hpre : s.config.obsPrefix = some pre) (path : Str) :
    Confined pre (ObsClient.dirObject (s.obsPath path)) := by
  unfold ObsClient.dirObject
  split
  · exact obsPath_confined hpre path
  · next hlast =>
    rcases obsPath_cases hpre path with h | h
    · rw [h] at hlast ⊢
      -- without a slash at its end the prefix is as configured
      have hself : trimEnd pre = pre := by
        unfold trimEnd
        rw [List.rdropWhile_eq_self_iff]
        intro hne hslash
        apply hlast
        rw [List.getLast?_eq_getLast_of_ne_nil hne]
        congr
        simpa using hslash
      have hbelow := confined_below pre []
      rw [hself] at hbelow
      exact hbelow
    · rw [h, List.append_assoc]
      exact confined_below pre (path ++ ['/'])

/-- The prefix is as configured, and all keys that are kept or were handed out are below it. -/
structure KeysBelow (b : Backend) (pre : Str) (start : List Request) (s : ObsFsCore) : Prop where
  config : s.config.obsPrefix = some pre
  client : s.obsClient.Asks b (Confined pre) start
  buffers : s.writeBuffer.KeysIn (Confined pre)
  spawned : ∀ job ∈ s.spawned, Confined pre job.path

namespace KeysBelow
variable {b : Backend} {start : List Request}

theorem withClient (h : s.KeysBelow b pre start) {cl : ObsClient}
    (hcl : cl.Asks b (Confined pre) start) : KeysBelow b pre start { s with obsClient := cl } :=
  ⟨h.config, hcl, h.buffers, h.spawned⟩

theorem withCache (h : s.KeysBelow b pre start) (cache : MetadataCache) :
    KeysBelow b pre start { s with metadataCache := cache } :=
  ⟨h.config, h.client, h.buffers, h.spawned⟩

theorem internInode (h : s.KeysBelow b pre start) (now : Now) (path : Str) (isDir : Bool)
    (size : ℕ) (attr : ℕ → FileAttr) :
    (s.internInode now path isDir size attr).2.KeysBelow b pre start :=
  ⟨h.config, h.client, h.buffers, h.spawned⟩

theorem probe (h : s.KeysBelow b pre start) (now : Now) (path : Str) :
    (s.probe now path).2.Asks b (Confined pre) start := by
  have hdir := dirKey_confined h.config path
  simp only [ObsFsCore.probe]
  have hfile := h.client.stat (obsPath_confined h.config path)
  generalize s.obsClient.stat (s.obsPath path) = r at hfile ⊢
  obtain ⟨_ | info, cl⟩ := r
  · have hmarker := hfile.stat hdir
    dsimp only at hmarker ⊢
    generalize cl.stat (dirKey (s.obsPath path)) = r at hmarker ⊢
    obtain ⟨_ | info, cl'⟩ := r
    · have hlist := hmarker.list hdir
      dsimp only at hlist ⊢
      generalize cl'.list (dirKey (s.obsPath path)) = r at hlist ⊢
      obtain ⟨_ | _ | _, cl''⟩ := r
      · exact hlist
      · exact hlist
      · exact hlist
    · exact hmarker
  · exact hfile

theorem lookupRemote (h : s.KeysBelow b pre start) (now : Now) (path : Str) :
    (s.lookupRemote now path).2.KeysBelow b pre start := by
  have hprobe := h.probe now path
  rw [lookupRemote_eq]
  generalize s.probe now path = r at hprobe ⊢
  obtain ⟨_ | ⟨isDir, size, attr⟩, cl⟩ := r
  · exact (h.withClient hprobe).withCache _
  · exact (h.withClient hprobe).internInode ..

theorem lookup (h : s.KeysBelow b pre start) (now : Now) (parent : ℕ) (name : OsStr) :
    (s.doLookup now parent name).2.KeysBelow b pre start := by
  unfold doLookup
  split
  · exact h
  · dsimp only
    split
    · exact h.withCache _
    · split
      · exact (h.withCache _).lookupRemote now _
      · split
        · exact (h.withCache _).withCache _
        · exact ((h.withCache _).withCache _).lookupRemote now _

theorem readdirLoop (h : s.KeysBelow b pre start) (now : Now) (path : Str) (offset : ℤ)
    (infos : List ObjectMeta) (first : ℤ) :
    (readdirLoop now path offset infos first s).2.2.KeysBelow b pre start := by
  induction infos generalizing s first with
  | nil => exact h
  | cons info infos ih =>
    unfold ObsFsCore.readdirLoop
    split
    · exact ih h _
    · dsimp only
      split
      · exact ih h _
      · exact ih (h.internInode now _ info.isDir info.size _) _

theorem readdir (h : s.KeysBelow b pre start) (now : Now) (inode : ℕ) (offset : ℤ) :
    (s.doReaddir now inode offset).2.KeysBelow b pre start := by
  unfold doReaddir
  split
  · exact h
  · next path _ =>
    dsimp only
    have hlist := h.client.listDir (obsPath_confined h.config path) (dirKey_confined h.config path)
    generalize s.obsClient.listDir (if s.obsPath path = [] then [] else dirKey (s.obsPath path)) = r
      at hlist ⊢
    obtain ⟨_ | infos, cl⟩ := r
    · exact h.withClient hlist
    · have hloop := (h.withClient hlist).readdirLoop now path offset infos 3
      exact ⟨hloop.config, hloop.client, hloop.buffers, hloop.spawned⟩

theorem getattr (h : s.KeysBelow b pre start) (now : Now) (inode : ℕ) :
    (s.doGetattr now inode).2.KeysBelow b pre start := by
  unfold doGetattr
  dsimp only
  split
  · exact h.withCache _
  · split
    · exact h.withCache _
    · next path _ =>
      have hstat := h.client.stat (obsPath_confined h.config path)
      dsimp only [obsPath] at hstat ⊢
      generalize ObsClient.stat _ _ = r at hstat ⊢
      obtain ⟨_ | info, cl⟩ := r
      · exact (h.withClient hstat).withCache _
      · exact (h.withClient hstat).withCache _

theorem readRemote (h : s.KeysBelow b pre start) (now : Now) (inode : ℕ) {obs : Str}
    (hobs : Confined pre obs) (offset size : ℕ) :
    (s.readRemote now inode obs offset size).2.KeysBelow b pre start := by
  have hread := h.client.readRange hobs offset size
  unfold ObsFsCore.readRemote
  generalize s.obsClient.readRange obs offset size = r at hread ⊢
  obtain ⟨_ | data, cl⟩ := r
  · exact h.withClient hread
  · refine ⟨h.config, hread, h.buffers, ?_⟩
    intro job hjob
    rcases List.mem_append.mp hjob with hold | hnew
    · exact h.spawned job hold
    · obtain ⟨request, -, heq⟩ := Option.map_eq_some_iff.mp (Option.mem_toList.mp hnew)
      rw [← heq]
      exact hobs

theorem read (h : s.KeysBelow b pre start) (now : Now) (inode fh offset size : ℕ) :
    (s.doRead now inode fh offset size).2.KeysBelow b pre start := by
  unfold doRead
  split
  · exact h
  · next path _ =>
    have hobs := obsPath_confined h.config path
    dsimp only
    split
    · exact ⟨h.config, h.client, h.buffers, h.spawned⟩
    · have hremote : ∀ t : ObsFsCore, t.KeysBelow b pre start →
          (t.readRemote now inode (s.obsPath path) offset size).2.KeysBelow b pre start :=
        fun t ht => ht.readRemote now inode hobs offset size
      split
      · split
        · exact ⟨h.config, h.client, h.buffers, h.spawned⟩
        · exact hremote _ ⟨h.config, h.client, h.buffers, h.spawned⟩
      · exact hremote _ ⟨h.config, h.client, h.buffers, h.spawned⟩

theorem write (h : s.KeysBelow b pre start) (now : Now) (inode fh offset : ℕ) (data : Bytes) :
    (s.doWrite now inode fh offset data).2.KeysBelow b pre start := by
  unfold doWrite
  split
  · exact h
  · next path _ =>
    dsimp only
    obtain ⟨hwb, hcl⟩ := WriteBuffer.write_asks h.buffers h.client
      (obsPath_confined h.config path) now.instant inode offset data
      (((s.metadataCache.getAttr now.instant inode).1.map (·.size)).getD 0)
    generalize s.writeBuffer.write s.obsClient now.instant inode (s.obsPath path) offset data
      (((s.metadataCache.getAttr now.instant inode).1.map (·.size)).getD 0) = r at hwb hcl ⊢
    obtain ⟨_ | _ | _, wb, cl⟩ := r
    · exact ⟨h.config, hcl, hwb, h.spawned⟩
    · exact ⟨h.config, hcl, hwb, h.spawned⟩
    · exact ⟨h.config, hcl, hwb, h.spawned⟩

theorem create (h : s.KeysBelow b pre start) (now : Now) (parent : ℕ) (name : OsStr)
    (mode flags : ℕ) : (s.doCreate now parent name mode flags).2.KeysBelow b pre start := by
  unfold doCreate
  split
  · exact h
  · next parentPath _ =>
    have hcl := h.client.write (obsPath_confined h.config (childPath parentPath name)) []
    dsimp only
    generalize s.obsClient.write (s.obsPath (childPath parentPath name)) [] = r at hcl ⊢
    obtain ⟨_ | _, cl⟩ := r
    · exact h.withClient hcl
    · exact ⟨h.config, hcl, h.buffers, h.spawned⟩

theorem mkdir (h : s.KeysBelow b pre start) (now : Now) (parent : ℕ) (name : OsStr)
    (mode : ℕ) : (s.doMkdir now parent name mode).2.KeysBelow b pre start := by
  unfold doMkdir
  split
  · exact h
  · next parentPath _ =>
    have hcl := h.client.createDir (dirObject_confined h.config (childPath parentPath name))
    dsimp only
    generalize s.obsClient.createDir (s.obsPath (childPath parentPath name)) = r at hcl ⊢
    obtain ⟨_ | _, cl⟩ := r
    · exact h.withClient hcl
    · exact ⟨h.config, hcl, h.buffers, h.spawned⟩

theorem unlink (h : s.KeysBelow b pre start) (parent : ℕ) (name : OsStr) :
    (s.doUnlink parent name).2.KeysBelow b pre start := by
  unfold doUnlink
  split
  · exact h
  · next parentPath _ =>
    have hcl := h.client.delete (obsPath_confined h.config (childPath parentPath name))
    dsimp only
    generalize s.obsClient.delete (s.obsPath (childPath parentPath name)) = r at hcl ⊢
    obtain ⟨_ | _, cl⟩ := r
    · exact h.withClient hcl
    · dsimp only
      split
      · exact ⟨h.config, hcl, h.buffers, h.spawned⟩
      · exact ⟨h.config, hcl, h.buffers, h.spawned⟩

theorem rmdir (h : s.KeysBelow b pre start) (parent : ℕ) (name : OsStr) :
    (s.doRmdir parent name).2.KeysBelow b pre start := by
  unfold doRmdir
  split
  · exact h
  · next parentPath _ =>
    have hkey := dirKey_confined h.config (childPath parentPath name)
    have hlist := h.client.list hkey
    dsimp only
    generalize s.obsClient.list (dirKey (s.obsPath (childPath parentPath name))) = r at hlist ⊢
    obtain ⟨_ | entries, cl⟩ := r
    · exact h.withClient hlist
    · have hdelete := hlist.delete hkey
      dsimp only at hdelete ⊢
      split
      · exact h.withClient hlist
      · split
        · exact ⟨h.config, hdelete, h.buffers, h.spawned⟩
        · exact ⟨h.config, hdelete, h.buffers, h.spawned⟩

theorem rename (h : s.KeysBelow b pre start) (now : Now) (parent : ℕ) (name : OsStr)
    (newParent : ℕ) (newName : OsStr) :
    (s.doRename now parent name newParent newName).2.KeysBelow b pre start := by
  unfold doRename
  split
  · next parentPath newParentPath _ _ =>
    have hold := obsPath_confined h.config (childPath parentPath name)
    have hcopy := h.client.copy hold
      (obsPath_confined h.config (childPath newParentPath newName))
    dsimp only
    generalize s.obsClient.copy (s.obsPath (childPath parentPath name))
      (s.obsPath (childPath newParentPath newName)) = r at hcopy ⊢
    obtain ⟨_ | _, cl⟩ := r
    · exact h.withClient hcopy
    · have hdelete := hcopy.delete hold
      dsimp only at hdelete ⊢
      generalize cl.delete (s.obsPath (childPath parentPath name)) = r at hdelete ⊢
      obtain ⟨_ | _, cl'⟩ := r
      · exact h.withClient hdelete
      · exact ⟨h.config, hdelete, h.buffers, h.spawned⟩
  · exact h

theorem onWriteBuffer (h : s.KeysBelow b pre start)
    {r : WriteResult Unit × WriteBuffer × ObsClient}
    (hr : r.2.1.KeysIn (Confined pre) ∧ r.2.2.Asks b (Confined pre) start) :
    (s.onWriteBuffer r).2.KeysBelow b pre start :=
  ⟨h.config, hr.2, hr.1, h.spawned⟩

theorem release (h : s.KeysBelow b pre start) (inode fh : ℕ) :
    (s.doRelease inode fh).2.KeysBelow b pre start := by
  obtain ⟨hwb, hcl⟩ := WriteBuffer.release_asks h.buffers h.client inode
  unfold doRelease
  generalize s.writeBuffer.release s.obsClient inode = r at hwb hcl ⊢
  obtain ⟨_ | _ | _, wb, cl⟩ := r
  · exact ⟨h.config, hcl, hwb, h.spawned⟩
  · exact ⟨h.config, hcl, hwb, h.spawned⟩
  · exact ⟨h.config, hcl, hwb, h.spawned⟩

theorem truncate (h : s.KeysBelow b pre start) (now : Now) (inode size : ℕ) :
    (s.doTruncate now inode size).2.KeysBelow b pre start := by
  unfold doTruncate
  split
  · exact h
  · next path _ =>
    obtain ⟨hwb, hcl⟩ := WriteBuffer.truncate_asks h.buffers h.client
      (obsPath_confined h.config path) now.instant inode size
    generalize s.writeBuffer.truncate s.obsClient now.instant inode (s.obsPath path) size = r
      at hwb hcl ⊢
    obtain ⟨_ | _ | _, wb, cl⟩ := r
    · exact ⟨h.config, hcl, hwb, h.spawned⟩
    · exact ⟨h.config, hcl, hwb, h.spawned⟩
    · exact ⟨h.config, hcl, hwb, h.spawned⟩

theorem prefetch (h : s.KeysBelow b pre start) (now : Now) (n : ℕ) (permit : Bool) :
    (s.prefetchTask now n permit).KeysBelow b pre start := by
  unfold prefetchTask
  split
  · exact h
  · next job hjob =>
    have hspawned : ∀ job ∈ s.spawned.eraseIdx n, Confined pre job.path :=
      fun job hmem => h.spawned job (List.mem_of_mem_eraseIdx hmem)
    have hread := h.client.readRange (h.spawned job (List.mem_of_getElem? hjob))
      job.request.offset job.request.size
    dsimp only
    split
    · exact ⟨h.config, h.client, h.buffers, hspawned⟩
    · generalize s.obsClient.readRange job.path job.request.offset job.request.size = r at hread ⊢
      obtain ⟨_ | data, cl⟩ := r
      · exact ⟨h.config, hread, h.buffers, hspawned⟩
      · exact ⟨h.config, hread, h.buffers, hspawned⟩

theorem step (h : s.KeysBelow b pre start) (op : FsOp) : (s.step op).KeysBelow b pre start := by
  cases op with
  | lookup now parent name => exact h.lookup now parent name
  | readdir now inode offset => exact h.readdir now inode offset
  | getattr now inode => exact h.getattr now inode
  | read now inode fh offset size => exact h.read now inode fh offset size
  | write now inode fh offset data => exact h.write now inode fh offset data
  | create now parent name mode flags => exact h.create now parent name mode flags
  | mkdir now parent name mode => exact h.mkdir now parent name mode
  | unlink parent name => exact h.unlink parent name
  | rmdir parent name => exact h.rmdir parent name
  | rename now parent name newParent newName =>
    exact h.rename now parent name newParent newName
  | openFile now inode flags | opendir now inode flags | close fh =>
    exact ⟨h.config, h.client, h.buffers, h.spawned⟩
  | release inode fh => exact h.release inode fh
  | fsync inode | flush inode =>
    exact h.onWriteBuffer (WriteBuffer.flush_asks h.buffers h.client inode)
  | flushAll order | flushExpired now order =>
    exact h.onWriteBuffer (WriteBuffer.flushEach_asks h.buffers h.client _ _)
  | truncate now inode size => exact h.truncate now inode size
  | prefetch now n permit => exact h.prefetch now n permit

end KeysBelow

end ObsFsCore

/-- In every run of a mount with a prefix, whatever the storage answers, the keys handed to
the client are the prefix, the prefix without its slashes, or below it. -/
theorem requests_confined {config : Config} (valid : config.validate = .ok ())
    (env : Surroundings) {pre : Str} (hpre : config.obs.obsPrefix = some pre) (ops : List FsOp) :
    ∃ reqs, (run ObsFsCore.step (.new config valid env) ops).obsClient.log =
        env.client.log ++ reqs ∧
      ∀ r ∈ reqs, r.Within env.client.backend (Confined pre) := by
  have hnew : (ObsFsCore.new config valid env).KeysBelow env.client.backend pre env.client.log :=
    ⟨hpre, ⟨rfl, [], (List.append_nil _).symm, nofun⟩, nofun, nofun⟩
  have hstep : ∀ (s : ObsFsCore) op, s.KeysBelow env.client.backend pre env.client.log →
      (s.step op).KeysBelow env.client.backend pre env.client.log := fun _ op h => h.step op
  exact (run_kept hstep hnew ops).client.log

/-- The mount of a tenant's directory in a bucket that holds an object of another tenant. -/
theorem tenant_requests_confined :
    let config : Config :=
      { Config.basic with obs := { Config.basic.obs with obsPrefix := some "t1/".toList } }
    ∃ reqs, (run ObsFsCore.step
        (.new config rfl (.still (.holding .plain ["t1/a".toList, "t10/b".toList])))
        [.lookup ⟨0, 0⟩ 1 [97], .write ⟨0, 0⟩ 2 0 0 [1], .rmdir 1 [47], .unlink 1 [97],
          .flushAll .storage]).obsClient.log = [] ++ reqs ∧
      ∀ r ∈ reqs, r.Within .plain (Confined "t1/".toList) := by
  intro config
  exact @requests_confined config rfl
    (.still (.holding .plain ["t1/a".toList, "t10/b".toList])) "t1/".toList rfl
    [.lookup ⟨0, 0⟩ 1 [97], .write ⟨0, 0⟩ 2 0 0 [1], .rmdir 1 [47], .unlink 1 [97],
      .flushAll .storage]

end ObsFuse
