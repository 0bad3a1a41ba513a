import ObsFuse.Fs.Events
import ObsFuse.Fs.WinFsp

/-! # The requests of both adapters as events at the core

A request is carried out as some events of the mount's own. Here is for each adapter of which
kind: whether any of them may change objects otherwise than by a flush. -/

namespace ObsFuse
open Lib

/-- The operations that send a change to the storage, or prepare one. -/
def FsOp.modifies : FsOp → Bool
  | .create .. | .mkdir .. | .unlink .. | .rmdir .. | .rename .. | .write .. | .truncate .. => true
  | _ => false

/-- An event of the mount's own, which modifies only if that is allowed. -/
def CoreEvent.Own (modifies : Bool) : CoreEvent → Prop
  | .op call => call.modifies = true → modifies = true
  | .cacheGet .. | .cachePut .. => True
  | .foreign _ => False

/-- The mount itself leads from the one core to the other. -/
abbrev ObsFsCore.Does (modifies : Bool) : ObsFsCore → ObsFsCore → Prop :=
  ReachesBy ObsFsCore.event (CoreEvent.Own modifies)

theorem ObsFsCore.does_op {modifies : Bool} (s : ObsFsCore) {op : FsOp}
    (h : op.modifies = true → modifies = true) : s.Does modifies (s.step op) :=
  @ReachesBy.single _ _ _ _ s (CoreEvent.op op) h

theorem ObsFsCore.does_harmless {modifies : Bool} (s : ObsFsCore) {op : FsOp}
    (h : op.modifies = false) : s.Does modifies (s.step op) := by
  apply s.does_op
  rw [h]
  exact nofun

/-! ### FUSE -/

def FuseRequest.modifies : FuseRequest → Bool
  | .setattr _ _ set => set.size.isSome
  | .openFile _ _ flags => flags &&& oTrunc ≠ 0
  | .write .. | .create .. | .mkdir .. | .unlink .. | .rmdir .. | .rename .. => true
  | _ => false

theorem ObsFs.updateEvents_own (modifies : Bool) (core : ObsFsCore) (now : Now) (inode : ℕ)
    (set : SetAttr) : ∀ ev ∈ updateEvents core now inode set, ev.Own modifies := by
  intro ev hev
  unfold updateEvents at hev
  rcases List.mem_cons.mp hev with rfl | hput
  · trivial
  · split at hput
    · rw [List.mem_singleton.mp hput]
      trivial
    · cases hput

theorem ObsFs.events_own (core : ObsFsCore) (r : FuseRequest) :
    ∀ ev ∈ events core r, ev.Own r.modifies := by
  have hone : ∀ {op : FsOp}, (op.modifies = true → r.modifies = true) →
      ∀ ev ∈ [CoreEvent.op op], ev.Own r.modifies := by
    intro op hop ev hev
    rw [List.mem_singleton.mp hev]
    exact hop
  cases r with
  | setattr now inode set =>
    simp only [events, setattrEvents]
    cases hsize : set.size with
    | none => exact updateEvents_own _ core now inode set
    | some size =>
      have hmodifies : (FuseRequest.setattr now inode set).modifies = true := by
        simp only [FuseRequest.modifies, hsize, Option.isSome_some]
      intro ev hev
      rcases List.mem_cons.mp hev with rfl | hrest
      · exact fun _ => hmodifies
      · split at hrest
        · next core' _ => exact updateEvents_own _ core' now inode set ev hrest
        · cases hrest
  | openFile now inode flags =>
    simp only [events]
    intro ev hev
    rcases List.mem_cons.mp hev with rfl | hrest
    · exact nofun
    · split at hrest
      · next htrunc =>
        rw [List.mem_singleton.mp hrest]
        exact fun _ => decide_eq_true htrunc
      · cases hrest
  | access inode => exact nofun
  | lookup | getattr | read | release | fsync | opendir | readdir | releasedir | flush
  | destroy => exact hone nofun
  | write | create | mkdir | unlink | rmdir | rename => exact hone fun _ => rfl

theorem ObsFs.serve_does (core : ObsFsCore) (r : FuseRequest) :
    core.Does r.modifies (serve core r).2 :=
  ⟨events core r, events_own core r, serve_events core r⟩

/-! ### WinFSP -/

inductive WinRequest where
  | getSecurityByName (clock : ℕ → Now) (now : Now) (fileName : Str)
  | openFile (clock : ℕ → Now) (now now' : Now) (fileName : Str) (grantedAccess : ℕ)
  | close (context : FileContext)
  | read (now : Now) (context : FileContext) (len offset : ℕ)
  | write (now now' : Now) (context : FileContext) (buffer : Bytes) (offset : ℕ)
  | flush (now : Now) (context : FileContext)
  | getFileInfo (now : Now) (context : FileContext)
  | setBasicInfo (now now' : Now) (context : FileContext) (times : WinFspFs.BasicTimes)
  | setFileSize (now now' : Now) (context : FileContext) (newSize : ℕ) (setAllocationSize : Bool)
  | canDelete (now : Now) (context : FileContext)
  | rename (now : Now) (context : FileContext) (newFileName : Str)
  | readDirectory (now : Now) (clock : ℕ → Now) (context : FileContext) (marker : Option Str)
    (fits : ℕ)
  | cleanup (context : FileContext) (flags : ℕ)
  | create (clock : ℕ → Now) (now now' : Now) (fileName : Str)
    (createOptions grantedAccess fileAttributes : ℕ)
  | overwrite (now now' : Now) (context : FileContext)

def WinRequest.modifies : WinRequest → Bool
  | .setFileSize _ _ _ _ setAllocationSize => !setAllocationSize
  | .cleanup _ flags => flags &&& 0x01 ≠ 0
  | .write .. | .rename .. | .create .. | .overwrite .. => true
  | _ => false

namespace WinFspFs

/-- The core after a request. -/
def after (core : ObsFsCore) : WinRequest → ObsFsCore
  | .getSecurityByName clock now fileName => (getSecurityByName core clock now fileName).2
  | .openFile clock now now' fileName grantedAccess =>
    (openFile core clock now now' fileName grantedAccess).2
  | .close context => close core context
  | .read now context len offset => (read core now context len offset).2
  | .write now now' context buffer offset => (write core now now' context buffer offset).2
  | .flush now context => (flush core now context).2
  | .getFileInfo now context => (fileInfo core now context.inode).2
  | .setBasicInfo now now' context times => (setBasicInfo core now now' context times).2
  | .setFileSize now now' context newSize setAllocationSize =>
    (setFileSize core now now' context newSize setAllocationSize).2
  | .canDelete now context => (canDelete core now context).2
  | .rename now context newFileName => (rename core now context newFileName).2
  | .readDirectory now clock context marker fits =>
    (readDirectory core now clock context marker fits).2
  | .cleanup context flags => cleanup core context flags
  | .create clock now now' fileName createOptions grantedAccess fileAttributes =>
    (create core clock now now' fileName createOptions grantedAccess fileAttributes).2
  | .overwrite now now' context => (overwrite core now now' context).2

variable {modifies : Bool}

theorem walk_does (clock : ℕ → Now) (inode : ℕ) (parts : List Str) (core : ObsFsCore) :
    core.Does modifies (walk clock inode parts core).2 := by
  induction parts generalizing clock inode core with
  | nil => exact .refl core
  | cons part parts ih =>
    have hlookup : core.Does modifies (core.doLookup (clock 0) inode (osStr part)).2 :=
      @ObsFsCore.does_harmless _ core (.lookup (clock 0) inode (osStr part)) rfl
    unfold walk
    generalize core.doLookup (clock 0) inode (osStr part) = r at hlookup
    obtain ⟨found | e | _, core'⟩ := r
    · exact hlookup.trans (ih _ _ core')
    · exact hlookup
    · exact hlookup

theorem inodeOf_does (clock : ℕ → Now) (path : Str) (core : ObsFsCore) :
    core.Does modifies (inodeOf clock path core).2 := by
  unfold inodeOf
  split
  · exact .refl core
  · exact walk_does ..

theorem getattr_does (core : ObsFsCore) (now : Now) (inode : ℕ) :
    core.Does modifies (core.doGetattr now inode).2 :=
  @ObsFsCore.does_harmless _ core (.getattr now inode) rfl

theorem openHandle_does (core : ObsFsCore) (now : Now) (inode flags : ℕ) (isDir : Bool) :
    core.Does modifies (openHandle core now inode flags isDir).2 := by
  cases isDir with
  | true => exact @ObsFsCore.does_harmless _ core (.opendir now inode flags) rfl
  | false => exact @ObsFsCore.does_harmless _ core (.openFile now inode flags) rfl

theorem addDirInfos_does (clock : ℕ → Now) (fits : ℕ) (entries : List DirEntry)
    (core : ObsFsCore) : core.Does modifies (addDirInfos clock fits entries core).2 := by
  induction entries generalizing clock fits core with
  | nil =>
    rw [addDirInfos]
    exact .refl core
  | cons entry entries ih =>
    have hattr := @getattr_does modifies core (clock 0) entry.inode
    cases fits with
    | zero => exact hattr
    | succ fits => exact hattr.trans (ih _ fits _)

theorem openFile_does (core : ObsFsCore) (clock : ℕ → Now) (now now' : Now) (fileName : Str)
    (grantedAccess : ℕ) :
    core.Does modifies (openFile core clock now now' fileName grantedAccess).2 := by
  have hwalk := @inodeOf_does modifies clock (normalizeName fileName) core
  unfold openFile
  generalize inodeOf clock (normalizeName fileName) core = r at hwalk
  obtain ⟨inode | e | _, core'⟩ := r
  · have hattr := @getattr_does modifies core' now inode
    dsimp only
    generalize core'.doGetattr now inode = q at hattr
    obtain ⟨attr | e | _, core''⟩ := q
    · exact (hwalk.trans hattr).trans (openHandle_does ..)
    · exact hwalk.trans hattr
    · exact hwalk.trans hattr
  · exact hwalk
  · exact hwalk

theorem close_does (core : ObsFsCore) (context : FileContext) :
    core.Does modifies (close core context) := by
  unfold close
  split
  · exact @ObsFsCore.does_harmless _ core (.close context.fh) rfl
  · exact @ObsFsCore.does_harmless _ core (.release context.inode context.fh) rfl

theorem write_does (core : ObsFsCore) (now now' : Now) (context : FileContext) (buffer : Bytes)
    (offset : ℕ) : core.Does true (write core now now' context buffer offset).2 := by
  have hwrite : core.Does true (core.doWrite now context.inode context.fh offset buffer).2 :=
    @ObsFsCore.does_op _ core (.write now context.inode context.fh offset buffer) fun _ => rfl
  unfold write
  generalize core.doWrite now context.inode context.fh offset buffer = r at hwrite
  obtain ⟨written | e | _, core'⟩ := r
  · exact hwrite.trans (getattr_does ..)
  · exact hwrite
  · exact hwrite

theorem flush_does (core : ObsFsCore) (now : Now) (context : FileContext) :
    core.Does modifies (flush core now context).2 := by
  have hflush : core.Does modifies (core.doFlush context.inode).2 :=
    @ObsFsCore.does_harmless _ core (.flush context.inode) rfl
  unfold flush
  generalize core.doFlush context.inode = r at hflush
  obtain ⟨done | e | _, core'⟩ := r
  · exact hflush.trans (getattr_does ..)
  · exact hflush
  · exact hflush

theorem setBasicInfo_does (core : ObsFsCore) (now now' : Now) (context : FileContext)
    (times : BasicTimes) : core.Does modifies (setBasicInfo core now now' context times).2 := by
  have hget : core.Does modifies (core.event (.cacheGet now context.inode)) :=
    @ReachesBy.single _ _ _ _ core (CoreEvent.cacheGet now context.inode) trivial
  unfold ObsFsCore.event at hget
  unfold setBasicInfo
  dsimp only at hget ⊢
  generalize core.metadataCache.getAttr now.instant context.inode = r at hget
  obtain ⟨_ | attr, cache⟩ := r
  · exact hget.trans (getattr_does ..)
  · dsimp only
    cases times.apply attr with
    | none => exact hget
    | some attr' =>
      exact hget.trans (@ReachesBy.single _ _ _ _ { core with metadataCache := cache }
        (CoreEvent.cachePut now' context.inode attr') trivial)

theorem setFileSize_does (core : ObsFsCore) (now now' : Now) (context : FileContext)
    (newSize : ℕ) (setAllocationSize : Bool) : core.Does (!setAllocationSize)
      (setFileSize core now now' context newSize setAllocationSize).2 := by
  unfold setFileSize
  cases setAllocationSize with
  | true => exact getattr_does ..
  | false =>
    have htruncate : core.Does true (core.doTruncate now context.inode newSize).2 :=
      @ObsFsCore.does_op _ core (.truncate now context.inode newSize) fun _ => rfl
    rw [if_neg Bool.false_ne_true]
    generalize core.doTruncate now context.inode newSize = r at htruncate
    obtain ⟨done | e | _, core'⟩ := r
    · exact htruncate.trans (getattr_does ..)
    · exact htruncate
    · exact htruncate

theorem overwrite_does (core : ObsFsCore) (now now' : Now) (context : FileContext) :
    core.Does true (overwrite core now now' context).2 :=
  setFileSize_does core now now' context 0 false

theorem canDelete_does (core : ObsFsCore) (now : Now) (context : FileContext) :
    core.Does modifies (canDelete core now context).2 := by
  have hread : core.Does modifies (core.doReaddir now context.inode 0).2 :=
    @ObsFsCore.does_harmless _ core (.readdir now context.inode 0) rfl
  unfold canDelete
  split
  · generalize core.doReaddir now context.inode 0 = r at hread
    obtain ⟨entries | e | _, core'⟩ := r
    · dsimp only
      split
      · exact hread
      · exact hread
    · exact hread
    · exact hread
  · exact .refl core

theorem readDirectory_does (core : ObsFsCore) (now : Now) (clock : ℕ → Now)
    (context : FileContext) (marker : Option Str) (fits : ℕ) :
    core.Does modifies (readDirectory core now clock context marker fits).2 := by
  have hread : core.Does modifies (core.doReaddir now context.inode 0).2 :=
    @ObsFsCore.does_harmless _ core (.readdir now context.inode 0) rfl
  unfold readDirectory
  generalize core.doReaddir now context.inode 0 = r at hread
  obtain ⟨entries | e | _, core'⟩ := r
  · exact hread.trans (addDirInfos_does ..)
  · exact hread
  · exact hread

theorem rename_does (core : ObsFsCore) (now : Now) (context : FileContext) (newFileName : Str) :
    core.Does true (rename core now context newFileName).2 := by
  unfold rename
  split
  · exact .refl core
  · next oldPath _ =>
    dsimp only
    split
    · exact .refl core
    · next oldParent _ =>
      split
      · exact .refl core
      · next newParent _ =>
        exact @ObsFsCore.does_op _ core (.rename now oldParent (osStr (splitLast oldPath).2)
          newParent (osStr (splitLast (normalizeName newFileName)).2)) fun _ => rfl

theorem cleanup_does (core : ObsFsCore) (context : FileContext) (flags : ℕ) :
    core.Does (flags &&& 0x01 ≠ 0) (cleanup core context flags) := by
  unfold cleanup
  split
  · next hflags =>
    have hmodifies : decide (flags &&& 0x01 ≠ 0) = true := decide_eq_true hflags
    rw [hmodifies]
    split
    · exact .refl core
    · next path _ =>
      dsimp only
      split
      · exact .refl core
      · next parent _ =>
        split
        · exact @ObsFsCore.does_op _ core (.rmdir parent (osStr (splitLast path).2)) fun _ => rfl
        · exact @ObsFsCore.does_op _ core (.unlink parent (osStr (splitLast path).2)) fun _ => rfl
  · exact .refl core

theorem create_does (core : ObsFsCore) (clock : ℕ → Now) (now now' : Now) (fileName : Str)
    (createOptions grantedAccess fileAttributes : ℕ) : core.Does true
      (create core clock now now' fileName createOptions grantedAccess fileAttributes).2 := by
  have hwalk := @inodeOf_does true clock (splitLast (normalizeName fileName)).1 core
  unfold create
  dsimp only
  generalize inodeOf clock (splitLast (normalizeName fileName)).1 core = r at hwalk
  obtain ⟨parent | e | _, core'⟩ := r
  · refine hwalk.trans ?_
    dsimp only
    generalize osStr (splitLast (normalizeName fileName)).2 = name
    split
    · have hmkdir : core'.Does true (core'.doMkdir now parent name 0o755).2 :=
        @ObsFsCore.does_op _ core' (.mkdir now parent name 0o755) fun _ => rfl
      generalize core'.doMkdir now parent name 0o755 = q at hmkdir
      obtain ⟨⟨inode, attr⟩ | e | _, core''⟩ := q
      · exact hmkdir.trans (@ObsFsCore.does_harmless _ core''
          (.opendir now' inode (accessFlags grantedAccess)) rfl)
      · exact hmkdir
      · exact hmkdir
    · have hcreate : core'.Does true
          (core'.doCreate now parent name 0o644 (accessFlags grantedAccess)).2 :=
        @ObsFsCore.does_op _ core' (.create now parent name 0o644 (accessFlags grantedAccess))
          fun _ => rfl
      generalize core'.doCreate now parent name 0o644 (accessFlags grantedAccess) = q at hcreate
      obtain ⟨⟨inode, attr, fh⟩ | e | _, core''⟩ := q
      · exact hcreate
      · exact hcreate
      · exact hcreate
  · exact hwalk
  · exact hwalk

/-- The WinFSP adapter, too, acts on the core by its operations and the cached attributes. -/
theorem after_does (core : ObsFsCore) (r : WinRequest) : core.Does r.modifies (after core r) := by
  cases r with
  | getSecurityByName clock now fileName =>
    have hwalk := @inodeOf_does false clock (normalizeName fileName) core
    simp only [after, getSecurityByName]
    generalize inodeOf clock (normalizeName fileName) core = r at hwalk
    obtain ⟨inode | e | _, core'⟩ := r
    · exact hwalk.trans (getattr_does ..)
    · exact hwalk
    · exact hwalk
  | openFile clock now now' fileName grantedAccess => exact openFile_does ..
  | close context => exact close_does core context
  | read now context len offset =>
    exact @ObsFsCore.does_harmless _ core (.read now context.inode context.fh offset (u32 len)) rfl
  | write now now' context buffer offset => exact write_does ..
  | flush now context => exact flush_does ..
  | getFileInfo now context => exact getattr_does ..
  | setBasicInfo now now' context times => exact setBasicInfo_does ..
  | setFileSize now now' context newSize setAllocationSize => exact setFileSize_does ..
  | canDelete now context => exact canDelete_does ..
  | rename now context newFileName => exact rename_does ..
  | readDirectory now clock context marker fits => exact readDirectory_does ..
  | cleanup context flags => exact cleanup_does core context flags
  | create clock now now' fileName createOptions grantedAccess fileAttributes =>
    exact create_does ..
  | overwrite now now' context => exact overwrite_does ..

end WinFspFs

end ObsFuse
