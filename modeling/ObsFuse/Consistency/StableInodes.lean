import ObsFuse.Consistency.BoundedStaleness
import ObsFuse.Consistency.WindowsNames
import ObsFuse.Fs.Events
import ObsFuse.Fs.Mount
import ObsFuse.Fs.ReadPath
import ObsFuse.Fs.ReaddirPath
import ObsFuse.Fs.WritePath

/-! # Inode numbers are stable

The kernel keeps the number that was reported for a name. As long as no request removes or
renames what has the path, every later report for the path is of the same inode, and the name is
found under it unless it is denied. -/

namespace ObsFuse
open Lib

namespace ObsFsCore

/-- The operation reports the inode for the path. -/
def Reports (s : ObsFsCore) (path : Str) (inode : ℕ) : FsOp → Prop
  | .lookup now parent name =>
    ∃ parentPath, s.inodeMgr.getPath parent = some parentPath ∧
      normalizePath (childPath parentPath name) = path ∧
      ∃ attr, (s.doLookup now parent name).1 = .ok (inode, attr)
  | .create now parent name mode flags =>
    ∃ parentPath, s.inodeMgr.getPath parent = some parentPath ∧
      normalizePath (childPath parentPath name) = path ∧
      ∃ attr fh, (s.doCreate now parent name mode flags).1 = .ok (inode, attr, fh)
  | .mkdir now parent name mode =>
    ∃ parentPath, s.inodeMgr.getPath parent = some parentPath ∧
      normalizePath (childPath parentPath name) = path ∧
      ∃ attr, (s.doMkdir now parent name mode).1 = .ok (inode, attr)
  | .readdir now dir offset =>
    ∃ dirPath, s.inodeMgr.getPath dir = some dirPath ∧
      ∃ entries, (s.doReaddir now dir offset).1 = .ok entries ∧
        ∃ e ∈ entries, 3 ≤ e.offset ∧ normalizePath (joinPath dirPath e.name) = path ∧
          e.inode = inode
  | _ => False

/-- The event asks to remove or rename what has the path, or to rename something to it. -/
def Rebinds (s : ObsFsCore) (path : Str) : CoreEvent → Prop
  | .op (.unlink parent name) | .op (.rmdir parent name) =>
    ∃ parentPath ∈ s.inodeMgr.getPath parent,
      ∃ inode ∈ s.inodeMgr.getInode (childPath parentPath name),
        s.inodeMgr.getPath inode = some path
  | .op (.rename _ parent name newParent newName) =>
    ∃ parentPath ∈ s.inodeMgr.getPath parent, ∃ newParentPath ∈ s.inodeMgr.getPath newParent,
      normalizePath (childPath parentPath name) = path ∨
        normalizePath (childPath newParentPath newName) = path
  | _ => False

instance decidableRebinds (s : ObsFsCore) (path : Str) :
    (ev : CoreEvent) → Decidable (s.Rebinds path ev)
  | .op (.unlink ..) | .op (.rmdir ..) =>
    inferInstanceAs (Decidable (∃ parentPath ∈ _, ∃ inode ∈ _, _ = some path))
  | .op (.rename ..) =>
    inferInstanceAs (Decidable (∃ parentPath ∈ _, ∃ newParentPath ∈ _, _ = path ∨ _ = path))
  | .op (.lookup ..) | .op (.readdir ..) | .op (.getattr ..) | .op (.read ..) | .op (.write ..)
  | .op (.create ..) | .op (.mkdir ..) | .op (.openFile ..) | .op (.opendir ..) | .op (.close _)
  | .op (.release ..) | .op (.fsync _) | .op (.flush _) | .op (.flushAll _)
  | .op (.flushExpired ..) | .op (.truncate ..) | .op (.prefetch ..)
  | .cacheGet .. | .cachePut .. | .foreign _ => isFalse not_false

variable {s s' : ObsFsCore} {path : Str} {inode : ℕ}

/-! ### What keeps the number of a path -/

/-- Every path that leads to an inode still leads to it. -/
def KeepsNumbers (s s' : ObsFsCore) : Prop :=
  ∀ p i, s.inodeMgr.getInode p = some i → s'.inodeMgr.getInode p = some i

theorem KeepsNumbers.of_eq (h : s'.inodeMgr.pathToInode = s.inodeMgr.pathToInode) :
    KeepsNumbers s s' := by
  intro p i hi
  unfold InodeManager.getInode at hi ⊢
  rw [h]
  exact hi

theorem Interns.keepsNumbers (h : Interns s s') : KeepsNumbers s s' := by
  rcases h.inodeMgr with hsame | ⟨now, path, isDir, size, hnew⟩
  · exact .of_eq (congrArg InodeManager.pathToInode hsame)
  · intro p i hi
    rw [hnew]
    exact InodeManager.getInode_getOrCreateInode_of_some hi ..

theorem doMkdir_interns (s : ObsFsCore) (now : Now) (parent : ℕ) (name : OsStr) (mode : ℕ) :
    Interns s (s.doMkdir now parent name mode).2 := by
  unfold doMkdir internInode
  split
  · exact ⟨rfl, rfl, .inl rfl⟩
  · dsimp only
    split
    · exact ⟨rfl, rfl, .inl rfl⟩
    · exact ⟨rfl, rfl, .inr ⟨_, _, _, _, rfl⟩⟩

theorem doReaddir_keepsNumbers (s : ObsFsCore) (now : Now) (dir : ℕ) (offset : ℤ) :
    KeepsNumbers s (s.doReaddir now dir offset).2 := by
  cases hpath : s.inodeMgr.getPath dir with
  | none =>
    unfold doReaddir
    rw [hpath]
    exact .of_eq rfl
  | some path =>
    cases hlist : (s.obsClient.listDir (s.listingKey path)).1 with
    | error e =>
      unfold listingKey at hlist
      unfold doReaddir
      rw [hpath]
      dsimp only
      generalize s.obsClient.listDir (if s.obsPath path = [] then [] else dirKey (s.obsPath path))
        = r at hlist
      obtain ⟨_ | infos, cl⟩ := r
      · exact .of_eq rfl
      · cases hlist
    | ok infos => exact (doReaddir_lists ⟨hpath, hlist⟩ now offset).2.1.mapped

theorem doRmdir_names (s : ObsFsCore) (parent : ℕ) (name : OsStr) :
    (s.doRmdir parent name).2.inodeMgr = s.inodeMgr ∨
      ∃ parentPath ∈ s.inodeMgr.getPath parent,
        ∃ inode ∈ s.inodeMgr.getInode (childPath parentPath name),
          (s.doRmdir parent name).2.inodeMgr = s.inodeMgr.remove inode := by
  unfold doRmdir
  cases hp : s.inodeMgr.getPath parent with
  | none => exact .inl rfl
  | some parentPath =>
    dsimp only
    obtain ⟨_ | entries, cl⟩ := s.obsClient.list (dirKey (s.obsPath (childPath parentPath name)))
    · exact .inl rfl
    · dsimp only
      split
      · exact .inl rfl
      · cases hi : s.inodeMgr.getInode (childPath parentPath name) with
        | none => exact .inl rfl
        | some inode => exact .inr ⟨parentPath, rfl, inode, hi, rfl⟩

theorem getInode_remove {j : ℕ} {m m' : InodeManager} (hm : m' = m.remove j)
    (h : m.getInode path = some inode) (hj : m.getPath j ≠ some (normalizePath path)) :
    m'.getInode path = some inode := by
  unfold InodeManager.getInode at h ⊢
  rw [hm, InodeManager.lookup_remove, if_neg hj]
  exact h

theorem getInode_rename {m m' : InodeManager} {now : Now} {oldPath newPath : Str}
    (hm : m' = m.rename now oldPath newPath) (h : m.getInode path = some inode)
    (hold : normalizePath oldPath ≠ normalizePath path)
    (hnew : normalizePath newPath ≠ normalizePath path) : m'.getInode path = some inode := by
  unfold InodeManager.getInode at h ⊢
  cases hfound : AList.lookup (normalizePath oldPath) m.pathToInode with
  | none =>
    rw [hm, InodeManager.rename_unmapped hfound]
    exact h
  | some j =>
    rw [hm, InodeManager.lookup_rename hfound, if_neg (Ne.symm hnew), if_neg (Ne.symm hold)]
    exact h

theorem doTruncate_pathToInode (s : ObsFsCore) (now : Now) (i size : ℕ) :
    (s.doTruncate now i size).2.inodeMgr.pathToInode = s.inodeMgr.pathToInode := by
  unfold doTruncate
  split
  · rfl
  · split
    · rfl
    · rfl
    · rfl

theorem doRelease_pathToInode (s : ObsFsCore) (i fh : ℕ) :
    (s.doRelease i fh).2.inodeMgr.pathToInode = s.inodeMgr.pathToInode := by
  unfold doRelease
  split
  · rfl
  · rfl
  · rfl

/-- A path keeps its inode through an event that does not rebind it. -/
theorem event_getInode {ev : CoreEvent} (h : s.inodeMgr.getInode path = some inode)
    (hev : ¬s.Rebinds (normalizePath path) ev) :
    (s.event ev).inodeMgr.getInode path = some inode := by
  cases ev with
  | op call =>
    cases call with
    | lookup now parent name => exact (s.doLookup_interns now parent name).keepsNumbers _ _ h
    | readdir now dir offset => exact s.doReaddir_keepsNumbers now dir offset _ _ h
    | getattr now i =>
      show (s.doGetattr now i).2.inodeMgr.getInode path = some inode
      rw [doGetattr_inodeMgr]
      exact h
    | read now i fh offset size =>
      obtain ⟨-, -, hsame, -⟩ := s.doRead_frame now i fh offset size
      exact KeepsNumbers.of_eq (congrArg InodeManager.pathToInode hsame) _ _ h
    | write now i fh offset data =>
      exact KeepsNumbers.of_eq (s.doWrite_pathToInode now i fh offset data) _ _ h
    | create now parent name mode flags =>
      exact (s.doCreate_interns now parent name mode flags).keepsNumbers _ _ h
    | mkdir now parent name mode =>
      exact (s.doMkdir_interns now parent name mode).keepsNumbers _ _ h
    | unlink parent name =>
      obtain ⟨-, -, hsame | ⟨-, parentPath, hparent, j, hj, hremove⟩⟩ :=
        s.doUnlink_names parent name
      · exact KeepsNumbers.of_eq (congrArg InodeManager.pathToInode hsame) _ _ h
      · exact getInode_remove hremove h fun hpath => hev ⟨parentPath, hparent, j, hj, hpath⟩
    | rmdir parent name =>
      rcases s.doRmdir_names parent name with hsame | ⟨parentPath, hparent, j, hj, hremove⟩
      · exact KeepsNumbers.of_eq (congrArg InodeManager.pathToInode hsame) _ _ h
      · exact getInode_remove hremove h fun hpath => hev ⟨parentPath, hparent, j, hj, hpath⟩
    | rename now parent name newParent newName =>
      obtain ⟨-, -, hsame | ⟨-, parentPath, hparent, newParentPath, hnew, hrename⟩⟩ :=
        s.doRename_names now parent name newParent newName
      · exact KeepsNumbers.of_eq (congrArg InodeManager.pathToInode hsame) _ _ h
      · refine getInode_rename hrename h ?_ ?_
        · exact fun hpath => hev ⟨parentPath, hparent, newParentPath, hnew, .inl hpath⟩
        · exact fun hpath => hev ⟨parentPath, hparent, newParentPath, hnew, .inr hpath⟩
    | truncate now i size => exact KeepsNumbers.of_eq (s.doTruncate_pathToInode now i size) _ _ h
    | release i fh => exact KeepsNumbers.of_eq (s.doRelease_pathToInode i fh) _ _ h
    | prefetch now n permit =>
      obtain ⟨-, -, hsame, -⟩ := s.prefetchTask_frame now n permit
      exact KeepsNumbers.of_eq (congrArg InodeManager.pathToInode hsame) _ _ h
    | openFile | opendir | close | fsync | flush | flushAll | flushExpired => exact h
  | cacheGet now i => exact h
  | cachePut now i attr => exact h
  | foreign objects => exact h

/-! ### Reports -/

theorem mem_numbered {inodeOf : Str → ℕ} {infos : List ObjectMeta} {offset : ℤ} {e : DirEntry}
    (h : e ∈ numbered inodeOf infos offset) :
    ∃ info ∈ infos, e.name = info.name ∧ e.inode = inodeOf info.name := by
  induction infos generalizing offset with
  | nil => cases h
  | cons info infos ih =>
    rcases List.mem_cons.mp h with hhead | htail
    · exact ⟨info, List.mem_cons_self .., by rw [hhead]; rfl, by rw [hhead]; rfl⟩
    · obtain ⟨found, hfound, hname, hinode⟩ := ih htail
      exact ⟨found, List.mem_cons_of_mem _ hfound, hname, hinode⟩

theorem dotEntries_offset {dir : ℕ} {dirPath : Str} {offset : ℤ} {e : DirEntry}
    (h : e ∈ s.dotEntries dir dirPath offset) : e.offset < 3 := by
  unfold dotEntries at h
  rcases List.mem_append.mp h with hdot | hdotdot
  · split at hdot
    · rw [List.mem_singleton.mp hdot]
      show (1 : ℤ) < 3
      omega
    · cases hdot
  · split at hdotdot
    · rw [List.mem_singleton.mp hdotdot]
      show (2 : ℤ) < 3
      omega
    · cases hdotdot

theorem doReaddir_getInode {now : Now} {dir : ℕ} {offset : ℤ} {dirPath : Str}
    (hpath : s.inodeMgr.getPath dir = some dirPath) {entries : List DirEntry}
    (h : (s.doReaddir now dir offset).1 = .ok entries) {e : DirEntry} (he : e ∈ entries)
    (hoffset : 3 ≤ e.offset) :
    (s.doReaddir now dir offset).2.inodeMgr.getInode (joinPath dirPath e.name) = some e.inode := by
  cases hlist : (s.obsClient.listDir (s.listingKey dirPath)).1 with
  | error err =>
    unfold listingKey at hlist
    unfold doReaddir at h
    rw [hpath] at h
    dsimp only at h
    generalize s.obsClient.listDir (if s.obsPath dirPath = [] then []
      else dirKey (s.obsPath dirPath)) = r at h hlist
    obtain ⟨_ | infos, cl⟩ := r
    · cases h
    · cases hlist
  | ok infos =>
    obtain ⟨hentries, -, hmapped, -⟩ := doReaddir_lists ⟨hpath, hlist⟩ now offset
    rw [hentries] at h
    cases h
    rcases List.mem_append.mp he with hdot | hnumbered
    · exact absurd (dotEntries_offset hdot) (Int.not_lt.mpr hoffset)
    · obtain ⟨info, hinfo, hname, hinode⟩ := mem_numbered hnumbered
      obtain ⟨i, hi⟩ := Option.isSome_iff_exists.mp (hmapped info hinfo)
      rw [hname, hinode]
      unfold childInode
      rw [hi]
      rfl

theorem doCreate_getInode {now : Now} {parent : ℕ} {name : OsStr} {mode flags fh : ℕ}
    {attr : FileAttr} {parentPath : Str} (hparent : s.inodeMgr.getPath parent = some parentPath)
    (h : (s.doCreate now parent name mode flags).1 = .ok (inode, attr, fh)) :
    (s.doCreate now parent name mode flags).2.inodeMgr.getInode (childPath parentPath name) =
      some inode := by
  unfold doCreate at h ⊢
  rw [hparent] at h ⊢
  dsimp only at h ⊢
  generalize s.obsClient.write (s.obsPath (childPath parentPath name)) [] = r at h ⊢
  obtain ⟨_ | _, cl⟩ := r
  · cases h
  · cases h
    exact s.inodeMgr.getInode_getOrCreateInode now (childPath parentPath name) false 0

theorem doMkdir_getInode {now : Now} {parent : ℕ} {name : OsStr} {mode : ℕ} {attr : FileAttr}
    {parentPath : Str} (hparent : s.inodeMgr.getPath parent = some parentPath)
    (h : (s.doMkdir now parent name mode).1 = .ok (inode, attr)) :
    (s.doMkdir now parent name mode).2.inodeMgr.getInode (childPath parentPath name) =
      some inode := by
  unfold doMkdir at h ⊢
  rw [hparent] at h ⊢
  dsimp only at h ⊢
  generalize s.obsClient.createDir (s.obsPath (childPath parentPath name)) = r at h ⊢
  obtain ⟨_ | _, cl⟩ := r
  · cases h
  · cases h
    exact s.inodeMgr.getInode_getOrCreateInode now (childPath parentPath name) true 0

theorem doLookup_denied {now : Now} {parent : ℕ} {name : OsStr} {parentPath : Str}
    (hparent : s.inodeMgr.getPath parent = some parentPath)
    (h : (s.metadataCache.isNegative now.instant (childPath parentPath name)).1 = true) :
    (s.doLookup now parent name).1 = .err .notFound := by
  unfold doLookup
  rw [hparent]
  dsimp only
  rw [if_pos h]

theorem getInode_normalizePath (m : InodeManager) (p : Str) :
    m.getInode (normalizePath p) = m.getInode p := by
  unfold InodeManager.getInode
  rw [normalizePath_normalizePath]

/-- What is reported for a path is what it leads to. -/
theorem Reports.getInode {op : FsOp} (h : s.Reports path inode op) :
    (s.step op).inodeMgr.getInode path = some inode := by
  cases op with
  | lookup now parent name =>
    obtain ⟨parentPath, hparent, hpath, attr, hok⟩ := h
    rw [← hpath, getInode_normalizePath]
    exact doLookup_getInode hparent hok
  | create now parent name mode flags =>
    obtain ⟨parentPath, hparent, hpath, attr, fh, hok⟩ := h
    rw [← hpath, getInode_normalizePath]
    exact doCreate_getInode hparent hok
  | mkdir now parent name mode =>
    obtain ⟨parentPath, hparent, hpath, attr, hok⟩ := h
    rw [← hpath, getInode_normalizePath]
    exact doMkdir_getInode hparent hok
  | readdir now dir offset =>
    obtain ⟨dirPath, hdir, entries, hok, e, he, hoffset, hpath, rfl⟩ := h
    rw [← hpath, getInode_normalizePath]
    exact doReaddir_getInode hdir hok he hoffset
  | _ => cases h

theorem Reports.not_rebinds {op : FsOp} (h : s.Reports path inode op) (p : Str) :
    ¬s.Rebinds p (.op op) := by
  cases op with
  | lookup | create | mkdir | readdir => exact not_false
  | _ => cases h

theorem Reports.normal {op : FsOp} (h : s.Reports path inode op) : normalizePath path = path := by
  cases op with
  | lookup now parent name =>
    obtain ⟨parentPath, hparent, hpath, attr, hok⟩ := h
    rw [← hpath, normalizePath_normalizePath]
  | create now parent name mode flags =>
    obtain ⟨parentPath, hparent, hpath, attr, fh, hok⟩ := h
    rw [← hpath, normalizePath_normalizePath]
  | mkdir now parent name mode =>
    obtain ⟨parentPath, hparent, hpath, attr, hok⟩ := h
    rw [← hpath, normalizePath_normalizePath]
  | readdir now dir offset =>
    obtain ⟨dirPath, hdir, entries, hok, e, he, hoffset, hpath, hinode⟩ := h
    rw [← hpath, normalizePath_normalizePath]
  | _ => cases h

theorem run_getInode {evs : List CoreEvent} (h : s.inodeMgr.getInode path = some inode)
    (hkept : Along event (fun s ev => ¬s.Rebinds (normalizePath path) ev) s evs) :
    (run event s evs).inodeMgr.getInode path = some inode := by
  have hstep : ∀ (t : ObsFsCore) ev, t.inodeMgr.getInode path = some inode →
      ¬t.Rebinds (normalizePath path) ev → (t.event ev).inodeMgr.getInode path = some inode :=
    fun _ _ hi hev => event_getInode hi hev
  exact run_invariant hstep h hkept

end ObsFsCore

/-- Two reports for one path, by a lookup, a creation or a directory listing, are of the same
inode, whatever happens between them but a request to remove or rename what has the path or to
rename something to it, granted or not. -/
theorem reported_inode_stable (s : ObsFsCore) {path : Str} {inode inode' : ℕ} {op op' : FsOp}
    {evs : List CoreEvent} (hfirst : s.Reports path inode op)
    (hkept : Along ObsFsCore.event (fun s ev => ¬s.Rebinds path ev) (s.step op) evs)
    (hlast : (run ObsFsCore.event (s.step op) evs).Reports path inode' op') : inode' = inode := by
  have hnormal := hfirst.normal
  rw [← hnormal] at hkept
  have hbefore := ObsFsCore.run_getInode hfirst.getInode hkept
  have hafter := @ObsFsCore.event_getInode _ path inode (.op op') hbefore (hlast.not_rebinds _)
  exact Option.some.inj (hlast.getInode.symm.trans hafter)

/-- A file is listed, replaced by another client and created again, while its neighbour goes. -/
theorem listed_then_created :
    let client : ObsClient := .holding .plain [['a'], ['b']]
    let s := ObsFsCore.new .basic Config.basic_valid (.still client)
    let evs : List CoreEvent :=
      [.op (.lookup ⟨0, 0⟩ rootInode [98]), .op (.write ⟨1, 1⟩ 2 0 0 [7]),
        .op (.unlink rootInode [98]), .foreign (AList.insert ['c'] [] ∅),
        .op (.rename ⟨2, 2⟩ rootInode [99] rootInode [100])]
    let t := run ObsFsCore.event (s.step (.readdir ⟨0, 0⟩ rootInode 0)) evs
    ∀ inode, t.Reports ['a'] inode (.create ⟨3, 3⟩ rootInode [97] 0o644 1) → inode = 2 := by
  intro client s evs t inode hlast
  have hfirst : s.Reports ['a'] 2 (.readdir ⟨0, 0⟩ rootInode 0) :=
    ⟨[], rfl, [.dot 1, .dotdot 1, ⟨2, ['a'], .regularFile, 3⟩, ⟨3, ['b'], .regularFile, 4⟩],
      by decide +kernel, ⟨2, ['a'], .regularFile, 3⟩, by decide +kernel, by decide +kernel,
      by decide +kernel, rfl⟩
  exact reported_inode_stable s hfirst (by decide +kernel) hlast

/-- A path for which an inode was reported is found again under it, as long as nothing asks to
remove or rename it or to rename something to it and the bucket holds something for it, exactly if
no earlier lookup makes the cache deny it. -/
theorem reported_name_found_iff (s : ObsFsCore) (hr : s.obsClient.Reliable)
    (hf : s.obsClient.backend.Finds) {path : Str} {inode : ℕ} {op : FsOp} {evs : List CoreEvent}
    (hfirst : s.Reports path inode op)
    (hkept : Along ObsFsCore.event (fun s ev => ¬s.Rebinds path ev) (s.step op) evs)
    {parent : ℕ} {name : OsStr} {parentPath : Str} (now : Now)
    (hparent : (run ObsFsCore.event (s.step op) evs).inodeMgr.getPath parent = some parentPath)
    (hname : normalizePath (ObsFsCore.childPath parentPath name) = path)
    (hpresent : ¬(run ObsFsCore.event (s.step op) evs).Absent
      (ObsFsCore.childPath parentPath name)) :
    (∃ attr, ((run ObsFsCore.event (s.step op) evs).doLookup now parent name).1 =
        .ok (inode, attr)) ↔
      ((run ObsFsCore.event (s.step op) evs).metadataCache.isNegative now.instant
        (ObsFsCore.childPath parentPath name)).1 = false := by
  have hsame : ObsFsCore.SameService s (run ObsFsCore.event (s.step op) evs) :=
    ObsFsCore.run_sameService s (.op op :: evs)
  have hnormal := hfirst.normal
  rw [← hnormal] at hkept
  have hbefore := ObsFsCore.run_getInode hfirst.getInode hkept
  generalize run ObsFsCore.event (s.step op) evs = t at hparent hpresent hsame hbefore
  constructor
  · rintro ⟨attr, hok⟩
    by_contra hnegative
    rw [Bool.not_eq_false] at hnegative
    rw [ObsFsCore.doLookup_denied hparent hnegative] at hok
    cases hok
  · intro hnegative
    have hreliable : t.obsClient.Reliable := by
      intro n
      rw [hsame.faults]
      exact hr n
    rw [← hsame.backend] at hf
    have hok := ObsFsCore.doLookup_ok hreliable hf hparent hpresent hnegative
    obtain ⟨⟨found, attr⟩, hfound⟩ : ∃ r, (t.doLookup now parent name).1 = .ok r := by
      generalize (t.doLookup now parent name).1 = r at hok
      cases r with
      | ok r => exact ⟨r, rfl⟩
      | err e => cases hok
      | loops => cases hok
    have hreports : t.Reports path found (.lookup now parent name) :=
      ⟨parentPath, hparent, hname, attr, hfound⟩
    have hafter := @ObsFsCore.event_getInode _ path inode (.op (.lookup now parent name)) hbefore
      (hreports.not_rebinds _)
    have hsame : found = inode := Option.some.inj (hreports.getInode.symm.trans hafter)
    rw [← hsame]
    exact ⟨attr, hfound⟩

/-- A file that is listed while a denial of its neighbour is cached is found when its attributes
have expired. -/
theorem listed_file_found :
    let s := ObsFsCore.new .basic Config.basic_valid (.still (.holding .plain [['a']]))
    let evs : List CoreEvent := [.op (.lookup ⟨1, 1⟩ rootInode [98]), .op (.close 1)]
    let t := run ObsFsCore.event (s.step (.readdir ⟨0, 0⟩ rootInode 0)) evs
    ∃ attr, (t.doLookup ⟨secs 60, 0⟩ rootInode [97]).1 = .ok (2, attr) := by
  intro s evs t
  have hfirst : s.Reports ['a'] 2 (.readdir ⟨0, 0⟩ rootInode 0) :=
    ⟨[], rfl, [.dot 1, .dotdot 1, ⟨2, ['a'], .regularFile, 3⟩], by decide,
      ⟨2, ['a'], .regularFile, 3⟩, by decide, by decide, by decide, rfl⟩
  have hpresent : ¬t.Absent (ObsFsCore.childPath [] [97]) := by
    intro habsent
    exact habsent ['a'] (by decide +kernel) (by decide +kernel)
  have hroot : t.inodeMgr.getPath rootInode = some [] := by decide +kernel
  have hkept : Along ObsFsCore.event (fun s ev => ¬s.Rebinds ['a'] ev)
      (s.step (.readdir ⟨0, 0⟩ rootInode 0)) evs := by decide +kernel
  have hnegative : (t.metadataCache.isNegative (secs 60) ['a']).1 = false := by decide +kernel
  exact (@reported_name_found_iff s (fun _ => rfl) Backend.plain_finds ['a'] 2 _ evs hfirst hkept
    rootInode [97] [] ⟨secs 60, 0⟩ hroot rfl hpresent).mpr hnegative

end ObsFuse
