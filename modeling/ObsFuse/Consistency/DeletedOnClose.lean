import ObsFuse.Consistency.LiveNames
import ObsFuse.Consistency.RemovedDirectory
import ObsFuse.Consistency.WindowsNames
import ObsFuse.Fs.Frames

/-! # A file that is deleted when it is closed

WinFSP asks for the deletion by the open file, `do_unlink` and `do_rmdir` want a parent and a
name. `cleanup` splits the path of the file's inode, and finds the parent only if its path still
leads to an inode; the answer of the deletion is lost. `close` comes after it, and stores the file
again if bytes are still buffered for it. -/

namespace ObsFuse
open Lib

/-! ### Splitting a path -/

theorem splitLast_append (a : Str) {b : Str} (hb : '/' ∉ b) :
    WinFspFs.splitLast (a ++ '/' :: b) = (a, b) := by
  have hno : ∀ c ∈ b.reverse, decide (c ≠ '/') = true := by
    intro c hc
    apply decide_eq_true
    intro heq
    rw [heq] at hc
    exact hb (List.mem_reverse.mp hc)
  have hreverse : (a ++ '/' :: b).reverse = b.reverse ++ '/' :: a.reverse := by simp
  unfold WinFspFs.splitLast List.rdropWhile List.rtakeWhile
  rw [hreverse, List.dropWhile_append_of_pos hno, List.takeWhile_append_of_pos hno]
  simp

theorem splitLast_noSlash {b : Str} (hb : '/' ∉ b) : WinFspFs.splitLast b = ([], b) := by
  have hno : ∀ c ∈ b, decide (c ≠ '/') = true := by
    intro c hc
    apply decide_eq_true
    intro heq
    rw [heq] at hc
    exact hb hc
  unfold WinFspFs.splitLast
  rw [List.rdropWhile_eq_nil_iff.mpr hno, List.rtakeWhile_eq_self_iff.mpr hno]
  rfl

theorem normalizePath_of_parts {path : Str} (h : [] ∉ path.splitOn '/') :
    normalizePath path = path := by
  have hend : path.getLast? ≠ some '/' := by
    intro hlast
    obtain ⟨front, hfront⟩ := List.getLast?_eq_some_iff.mp hlast
    rw [hfront, List.splitOn_append_cons_self] at h
    exact h (List.mem_append_right _ (by simp))
  have hstart : path.head? ≠ some '/' := by
    intro hhead
    obtain ⟨rest, hrest⟩ := List.head?_eq_some_iff.mp hhead
    rw [hrest, ← List.nil_append ('/' :: rest), List.splitOn_append_cons_self] at h
    exact h (by simp)
  unfold normalizePath
  rw [trimStart_of_head? hstart, trimEnd_of_getLast? hend]

/-- A path without empty parts is made of what `cleanup` splits it into. -/
theorem joinPath_splitLast {path : Str} (h : [] ∉ path.splitOn '/') :
    normalizePath (WinFspFs.splitLast path).1 = (WinFspFs.splitLast path).1 ∧
      joinPath (WinFspFs.splitLast path).1 (WinFspFs.splitLast path).2 = path := by
  rcases noSlash_or_last path with hno | ⟨a, b, hpath, hb⟩
  · rw [splitLast_noSlash hno]
    exact ⟨rfl, rfl⟩
  · rw [hpath, List.splitOn_append_cons_self, List.mem_append, not_or] at h
    have hnormal := normalizePath_of_parts h.1
    have hne : a ≠ [] := by
      intro hnil
      rw [hnil] at h
      exact h.1 (by simp)
    rw [hpath, splitLast_append a hb]
    refine ⟨hnormal, ?_⟩
    rw [joinPath_of_normal hnormal, if_neg hne]

namespace WinFspFs
variable {core : ObsFsCore} {context : FileContext} {path : Str}

/-- The listing of a directory that shows nothing but its marker. -/
def ListedEmpty (core : ObsFsCore) (key : Str) : Prop :=
  ∃ infos, (core.obsClient.list key).1 = .ok infos ∧
    ObsFsCore.nonMarkerEntries key infos = []

/-- What the deletion of an open file hangs on. -/
structure Deletable (core : ObsFsCore) (context : FileContext) (path : Str) : Prop where
  parent : (knownParent core (splitLast path).1).isSome
  empty : context.isDir = true → ListedEmpty core (dirKey (core.obsPath path))

/-- The key of the object that stands for the open file. -/
def objectKey (core : ObsFsCore) (context : FileContext) (path : Str) : Str :=
  if context.isDir then dirKey (core.obsPath path) else core.obsPath path

theorem knownParent_getPath (hmapped : core.inodeMgr.Mapped)
    (hroot : core.inodeMgr.getPath rootInode = some []) {parent : ℕ}
    (h : knownParent core path = some parent) :
    core.inodeMgr.getPath parent = some (normalizePath path) := by
  unfold knownParent at h
  split at h
  · next hnil =>
    cases h
    rw [hnil]
    exact hroot
  · exact hmapped.getPath_of_getInode h

end WinFspFs

theorem ObsClient.Reliable.delete_objects {cl : ObsClient} (h : cl.Reliable) (key : Str) :
    (cl.delete key).2.objects = cl.objects.erase key := by
  rw [ObsClient.delete_objects, if_pos h.fault]

namespace ObsFsCore
variable {s : ObsFsCore} {parent inode : ℕ} {parentPath : Str} {name : OsStr}

/-- The file's object is gone, and its inode is forgotten. -/
structure Forgets (s s' : ObsFsCore) (key : Str) (inode : ℕ) : Prop where
  objects : s'.obsClient.objects = s.obsClient.objects.erase key
  inodeMgr : s'.inodeMgr = s.inodeMgr.remove inode

theorem doUnlink_forgets (hr : s.obsClient.Reliable)
    (hparent : s.inodeMgr.getPath parent = some parentPath)
    (hinode : s.inodeMgr.getInode (childPath parentPath name) = some inode) :
    s.Forgets (s.doUnlink parent name).2 (s.obsPath (childPath parentPath name)) inode := by
  have hobjects := hr.delete_objects (s.obsPath (childPath parentPath name))
  have hfault := hr.fault
  unfold doUnlink
  rw [hparent]
  dsimp only
  unfold ObsClient.delete at hobjects ⊢
  rw [hfault] at hobjects ⊢
  dsimp only
  rw [hinode]
  exact ⟨rfl, rfl⟩

theorem doRmdir_forgets {infos : List ObjectMeta} (hr : s.obsClient.Reliable)
    (hparent : s.inodeMgr.getPath parent = some parentPath)
    (hinode : s.inodeMgr.getInode (childPath parentPath name) = some inode)
    (hlist : (s.obsClient.list (s.markerKey parentPath name)).1 = .ok infos)
    (hempty : nonMarkerEntries (s.markerKey parentPath name) infos = []) :
    s.Forgets (s.doRmdir parent name).2 (s.markerKey parentPath name) inode := by
  have hsame := s.obsClient.list_sameBucket (s.markerKey parentPath name)
  have hobjects := (hsame.reliable hr).delete_objects (s.markerKey parentPath name)
  rw [hsame.objects] at hobjects
  refine ⟨?_, ?_⟩
  · rw [(doRmdir_passed hparent hlist hempty).2]
    exact hobjects
  · unfold markerKey at hlist hempty
    unfold doRmdir
    rw [hparent]
    dsimp only
    generalize s.obsClient.list (dirKey (s.obsPath (childPath parentPath name))) = r at hlist
    obtain ⟨_ | entries, cl⟩ := r
    · cases hlist
    · cases hlist
      dsimp only
      rw [if_neg (by rw [hempty]; exact fun h => h rfl), hinode]

/-- A directory that is not listed as empty stays, with all that is in the bucket. -/
theorem doRmdir_stays (hparent : s.inodeMgr.getPath parent = some parentPath)
    (h : ¬WinFspFs.ListedEmpty s (s.markerKey parentPath name)) :
    (s.doRmdir parent name).2.obsClient.objects = s.obsClient.objects ∧
      (s.doRmdir parent name).2.inodeMgr = s.inodeMgr := by
  have hsame := s.obsClient.list_sameBucket (s.markerKey parentPath name)
  cases hlist : (s.obsClient.list (s.markerKey parentPath name)).1 with
  | error e =>
    unfold markerKey at hlist hsame
    unfold doRmdir
    rw [hparent]
    dsimp only
    generalize s.obsClient.list (dirKey (s.obsPath (childPath parentPath name))) = r at hlist hsame
    obtain ⟨_ | entries, cl⟩ := r
    · exact ⟨hsame.objects, rfl⟩
    · cases hlist
  | ok infos =>
    have hcounted : nonMarkerEntries (s.markerKey parentPath name) infos ≠ [] := by
      intro hempty
      exact h ⟨infos, hlist, hempty⟩
    rw [doRmdir_refused hparent hlist hcounted]
    exact ⟨hsame.objects, rfl⟩

end ObsFsCore

namespace WinFspFs
variable {core : ObsFsCore} {context : FileContext} {path : Str} {flags : ℕ}

theorem cleanup_forgets (hr : core.obsClient.Reliable) (hmapped : core.inodeMgr.Mapped)
    (hroot : core.inodeMgr.getPath rootInode = some [])
    (hlive : core.inodeMgr.Live context.inode path) (hparts : [] ∉ path.splitOn '/')
    (hflags : flags &&& 0x01 ≠ 0) (h : Deletable core context path) :
    core.Forgets (cleanup core context flags) (objectKey core context path) context.inode := by
  obtain ⟨parent, hparent⟩ := Option.isSome_iff_exists.mp h.parent
  obtain ⟨hnormal, hjoin⟩ := joinPath_splitLast hparts
  have hpath := knownParent_getPath hmapped hroot hparent
  rw [hnormal] at hpath
  have hchild : ObsFsCore.childPath (splitLast path).1 (osStr (splitLast path).2) = path := by
    unfold ObsFsCore.childPath
    rw [toStringLossy_osStr, hjoin]
  have hinode := hlive.getInode
  rw [← hchild] at hinode
  unfold cleanup objectKey
  rw [if_pos hflags, hlive.getPath]
  dsimp only
  rw [hparent]
  dsimp only
  cases hdir : context.isDir with
  | true =>
    obtain ⟨infos, hlist, hempty⟩ := h.empty hdir
    have hforgets := @ObsFsCore.doRmdir_forgets core parent context.inode (splitLast path).1
      (osStr (splitLast path).2) infos hr hpath hinode
    unfold ObsFsCore.markerKey at hforgets
    rw [hchild] at hforgets
    exact hforgets hlist hempty
  | false =>
    have hforgets := ObsFsCore.doUnlink_forgets hr hpath hinode
    rw [hchild] at hforgets
    exact hforgets

theorem cleanup_stays (hmapped : core.inodeMgr.Mapped)
    (hroot : core.inodeMgr.getPath rootInode = some [])
    (hlive : core.inodeMgr.Live context.inode path) (hparts : [] ∉ path.splitOn '/')
    (hflags : flags &&& 0x01 ≠ 0) (h : ¬Deletable core context path) :
    (cleanup core context flags).obsClient.objects = core.obsClient.objects ∧
      (cleanup core context flags).inodeMgr = core.inodeMgr := by
  unfold cleanup
  rw [if_pos hflags, hlive.getPath]
  dsimp only
  cases hparent : knownParent core (splitLast path).1 with
  | none => exact ⟨rfl, rfl⟩
  | some parent =>
    obtain ⟨hnormal, hjoin⟩ := joinPath_splitLast hparts
    have hpath := knownParent_getPath hmapped hroot hparent
    rw [hnormal] at hpath
    have hchild : ObsFsCore.childPath (splitLast path).1 (osStr (splitLast path).2) = path := by
      unfold ObsFsCore.childPath
      rw [toStringLossy_osStr, hjoin]
    have hsome : (knownParent core (splitLast path).1).isSome := by
      rw [hparent]
      rfl
    dsimp only
    cases hdir : context.isDir with
    | true =>
      have hlisted : ¬ListedEmpty core (dirKey (core.obsPath path)) := by
        intro hempty
        exact h ⟨hsome, fun _ => hempty⟩
      apply ObsFsCore.doRmdir_stays hpath
      unfold ObsFsCore.markerKey
      rw [hchild]
      exact hlisted
    | false =>
      have hdeletable : Deletable core context path := by
        refine ⟨hsome, ?_⟩
        rw [hdir]
        exact nofun
      exact absurd hdeletable h

theorem cleanup_writeBuffer (core : ObsFsCore) (context : FileContext) (flags : ℕ) :
    (cleanup core context flags).writeBuffer = core.writeBuffer := by
  unfold cleanup
  split
  · split
    · rfl
    · dsimp only
      split
      · rfl
      · split
        · exact (core.doRmdir_sameFiles ..).writeBuffer
        · exact (core.doUnlink_names ..).2.1
  · rfl

/-- Closing sends nothing: it flushes no directory, and nothing waits in the buffer of a file. -/
def NothingBuffered (core : ObsFsCore) (context : FileContext) : Prop :=
  context.isDir = false → ∀ buf ∈ core.writeBuffer.buffers.lookup context.inode,
    buf.dirty = false ∨ buf.data = []

theorem close_stays (h : NothingBuffered core context) :
    (close core context).obsClient.objects = core.obsClient.objects ∧
      (close core context).inodeMgr = core.inodeMgr := by
  unfold close
  cases hdir : context.isDir with
  | true => exact ⟨rfl, rfl⟩
  | false =>
    rw [if_neg Bool.false_ne_true]
    unfold ObsFsCore.doRelease WriteBuffer.release
    cases hbuf : AList.lookup context.inode core.writeBuffer.buffers with
    | none => exact ⟨rfl, rfl⟩
    | some buf =>
      dsimp only
      rw [core.writeBuffer.config.flushBuffer_idle (h hdir buf hbuf)]
      exact ⟨rfl, rfl⟩

end WinFspFs

/-- The cleanup of an open file or directory that is marked for deletion removes exactly its
object, and forgets its inode, where its parent is known by path and a directory is listed as
empty; else all stays as it is, and Windows is told nothing of it. So does the close that follows
leave it, if nothing is buffered for the file. -/
theorem delete_on_close_exact {core : ObsFsCore} {context : FileContext} {path : Str} {flags : ℕ}
    (hr : core.obsClient.Reliable) (hmapped : core.inodeMgr.Mapped)
    (hroot : core.inodeMgr.getPath rootInode = some [])
    (hlive : core.inodeMgr.Live context.inode path) (hparts : [] ∉ path.splitOn '/')
    (hflags : flags &&& 0x01 ≠ 0) :
    let core' := WinFspFs.cleanup core context flags
    (WinFspFs.Deletable core context path → core'.inodeMgr.getPath context.inode = none ∧
        ∀ key, AList.lookup key core'.obsClient.objects =
          if key = WinFspFs.objectKey core context path then none
          else AList.lookup key core.obsClient.objects) ∧
      (¬WinFspFs.Deletable core context path →
        core'.obsClient.objects = core.obsClient.objects ∧ core'.inodeMgr = core.inodeMgr) ∧
      (WinFspFs.NothingBuffered core context →
        (WinFspFs.close core' context).obsClient.objects = core'.obsClient.objects ∧
          (WinFspFs.close core' context).inodeMgr = core'.inodeMgr) := by
  intro core'
  refine ⟨?_, ?_, ?_⟩
  · intro h
    obtain ⟨hobjects, hmgr⟩ := WinFspFs.cleanup_forgets hr hmapped hroot hlive hparts hflags h
    constructor
    · show (WinFspFs.cleanup core context flags).inodeMgr.getPath context.inode = none
      rw [hmgr, InodeManager.getPath_remove, if_pos rfl]
    · intro key
      show AList.lookup key (WinFspFs.cleanup core context flags).obsClient.objects = _
      rw [hobjects, Table.lookup_erase_if]
  · exact WinFspFs.cleanup_stays hmapped hroot hlive hparts hflags
  · intro h
    apply WinFspFs.close_stays
    unfold WinFspFs.NothingBuffered
    rw [WinFspFs.cleanup_writeBuffer]
    exact h

/-- A file that is opened by its name, next to another one. -/
def openedNextToAnother : WinResult (FileContext × FileInfo) × ObsFsCore :=
  WinFspFs.openFile (.new .basic Config.basic_valid
    (.still (.holding .plain ["d/f".toList, "d/g".toList]))) (fun _ => ⟨0, 0⟩) ⟨0, 0⟩ ⟨0, 0⟩
    "\\d\\f".toList 0

theorem openedNextToAnother_live : openedNextToAnother.2.inodeMgr.Live 3 "d/f".toList ∧
    openedNextToAnother.2.inodeMgr.Mapped ∧
    openedNextToAnother.2.inodeMgr.getPath rootInode = some [] := by
  have hready := @InodeManager.new_ready ⟨0, 0⟩ Config.basic.permission
    (0 + (components (WinFspFs.normalizeName "\\d\\f".toList)).length) (by decide)
  have hroot := InodeManager.new_root_live ⟨0, 0⟩ Config.basic.permission
  have hfirst : openedNextToAnother.1 = .ok (⟨3, 1, false⟩,
      WinFspFs.buildFileInfo (FileAttr.file 0 3 0 0 0 0o644)) := by decide
  obtain ⟨hlive, hready', hkeep⟩ := WinFspFs.openFile_live hready hroot hfirst
  exact ⟨hlive, hready'.mapped, (hkeep _ _ hroot).getPath⟩

/-- It is deleted when it is closed; the other one stays. -/
theorem opened_file_deleted :
    let core :=
      WinFspFs.close (WinFspFs.cleanup openedNextToAnother.2 ⟨3, 1, false⟩ 1) ⟨3, 1, false⟩
    core.inodeMgr.getPath 3 = none ∧
      AList.lookup ['d', '/', 'f'] core.obsClient.objects = none ∧
      AList.lookup ['d', '/', 'g'] core.obsClient.objects =
        AList.lookup ['d', '/', 'g'] openedNextToAnother.2.obsClient.objects := by
  intro core
  obtain ⟨hlive, hmapped, hroot⟩ := openedNextToAnother_live
  have hreliable : openedNextToAnother.2.obsClient.Reliable := fun _ => rfl
  have hdeletable : WinFspFs.Deletable openedNextToAnother.2 ⟨3, 1, false⟩ "d/f".toList :=
    ⟨by decide, nofun⟩
  have hempty : openedNextToAnother.2.writeBuffer.buffers.lookup 3 = none := by decide
  have hbuffered : WinFspFs.NothingBuffered openedNextToAnother.2 ⟨3, 1, false⟩ := by
    intro _ buf hbuf
    rw [hempty] at hbuf
    cases hbuf
  obtain ⟨hdeleted, -, hclosed⟩ := @delete_on_close_exact openedNextToAnother.2 ⟨3, 1, false⟩
    "d/f".toList 1 hreliable hmapped hroot hlive (by decide) (by decide)
  replace hdeleted := hdeleted hdeletable
  replace hclosed := hclosed hbuffered
  have hkey : WinFspFs.objectKey openedNextToAnother.2 ⟨3, 1, false⟩ "d/f".toList =
      ['d', '/', 'f'] := by decide
  rw [hkey, ← hclosed.1, ← hclosed.2] at hdeleted
  exact ⟨hdeleted.1, hdeleted.2 ['d', '/', 'f'], hdeleted.2 ['d', '/', 'g']⟩

end ObsFuse
