import ObsFuse.Fs.Mount
import ObsFuse.Storage.Requests

/-! # Renaming an object

A rename is a copy to the new key followed by a delete of the old one, and either request can
fail; the storage library refuses to copy an object to its own key. Here is when the two together
are all or nothing on the bucket. -/

namespace ObsFuse
open Lib

/-- A library that copies no object to its own key. -/
def Backend.RefusesSameFile (b : Backend) : Prop := ∀ key, b.refusesCopy key key ≠ none

theorem Backend.plain_refusesSameFile : Backend.plain.RefusesSameFile := by
  intro key
  show (if key = key then some ErrorKind.isSameFile else none) ≠ none
  rw [if_pos rfl]
  exact Option.some_ne_none _

/-- What the bucket holds at a key after the object `old` has become `new`. -/
def renamed (objects : Bucket) (old new key : Str) : Option Bytes :=
  if key = new then AList.lookup old objects
  else if key = old then none
  else AList.lookup key objects

namespace ObsFsCore

/-- A rename that succeeds has moved the object; one that fails has left every key and every
inode number as they were. -/
def RenamesWhole (s : ObsFsCore) (now : Now) (parent : ℕ) (name : OsStr) (newParent : ℕ)
    (newName : OsStr) : Prop :=
  let r := s.doRename now parent name newParent newName
  (r.1.isOk → ∃ parentPath ∈ s.inodeMgr.getPath parent,
    ∃ newParentPath ∈ s.inodeMgr.getPath newParent, ∀ key,
      AList.lookup key r.2.obsClient.objects =
        renamed s.obsClient.objects (s.obsPath (childPath parentPath name))
          (s.obsPath (childPath newParentPath newName)) key) ∧
  (r.1.isErr → (∀ key, AList.lookup key r.2.obsClient.objects =
      AList.lookup key s.obsClient.objects) ∧
    ∀ path, r.2.inodeMgr.getInode path = s.inodeMgr.getInode path)

/-- If there is an object to copy and the copy is made, then the delete does not fail, or the new
key already held the same content. -/
def RenameSafe (s : ObsFsCore) (parent : ℕ) (name : OsStr) (newParent : ℕ) (newName : OsStr) :
    Prop :=
  ∀ parentPath ∈ s.inodeMgr.getPath parent, ∀ newParentPath ∈ s.inodeMgr.getPath newParent,
    let oldObs := s.obsPath (childPath parentPath name)
    let newObs := s.obsPath (childPath newParentPath newName)
    s.obsClient.fault = none → s.obsClient.backend.refusesCopy oldObs newObs = none →
      ∀ data ∈ AList.lookup oldObs s.obsClient.objects,
        s.obsClient.faults (s.obsClient.log.length + 1) = none ∨
          AList.lookup newObs s.obsClient.objects = some data

instance (s : ObsFsCore) (parent : ℕ) (name : OsStr) (newParent : ℕ) (newName : OsStr) :
    Decidable (s.RenameSafe parent name newParent newName) :=
  inferInstanceAs (Decidable (∀ parentPath ∈ _, ∀ newParentPath ∈ _, _))

section
variable {s : ObsFsCore} {parent newParent : ℕ} {parentPath newParentPath : Str}
  (hp : s.inodeMgr.getPath parent = some parentPath)
  (hq : s.inodeMgr.getPath newParent = some newParentPath) (now : Now) (name newName : OsStr)

include hp hq

theorem doRename_copy_failed (h : s.obsClient.fault = none →
      s.obsClient.backend.refusesCopy (s.obsPath (childPath parentPath name))
        (s.obsPath (childPath newParentPath newName)) = none →
      AList.lookup (s.obsPath (childPath parentPath name)) s.obsClient.objects = none) :
    (s.doRename now parent name newParent newName).1 = .err .ioError ∧
      (s.doRename now parent name newParent newName).2.obsClient.objects = s.obsClient.objects ∧
      (s.doRename now parent name newParent newName).2.inodeMgr = s.inodeMgr := by
  obtain ⟨e, hcopy⟩ := ObsClient.copy_failed h
  unfold doRename
  rw [hp, hq]
  dsimp only
  rw [hcopy]
  exact ⟨rfl, rfl, rfl⟩

theorem doRename_copied (hf : s.obsClient.fault = none)
    (hc : s.obsClient.backend.refusesCopy (s.obsPath (childPath parentPath name))
      (s.obsPath (childPath newParentPath newName)) = none) {data : Bytes}
    (hdata : AList.lookup (s.obsPath (childPath parentPath name)) s.obsClient.objects =
      some data) :
    let r := s.doRename now parent name newParent newName
    let copied := s.obsClient.objects.insert (s.obsPath (childPath newParentPath newName)) data
    if s.obsClient.faults (s.obsClient.log.length + 1) = none then
      r.1 = .ok () ∧
        r.2.obsClient.objects = copied.erase (s.obsPath (childPath parentPath name))
    else
      r.1 = .err .ioError ∧ r.2.obsClient.objects = copied ∧ r.2.inodeMgr = s.inodeMgr := by
  have hcopy := ObsClient.copy_ok hf hc hdata
  unfold doRename
  rw [hp, hq]
  dsimp only
  rw [hcopy]
  dsimp only
  unfold ObsClient.copied ObsClient.delete ObsClient.fault
  simp only [ObsClient.sent_log, ObsClient.sent_faults, List.length_append, List.length_singleton]
  cases s.obsClient.faults (s.obsClient.log.length + 1) with
  | none =>
    rw [if_pos rfl]
    exact ⟨rfl, rfl⟩
  | some e =>
    rw [if_neg (Option.some_ne_none e)]
    exact ⟨rfl, rfl, rfl⟩

end

theorem copied_then_deleted {objects : Bucket} {old new : Str} {data : Bytes}
    (hdata : AList.lookup old objects = some data) (hne : old ≠ new) (key : Str) :
    AList.lookup key ((objects.insert new data).erase old) = renamed objects old new key := by
  unfold renamed
  rw [Table.lookup_erase_if, Table.lookup_insert_if]
  by_cases hk : key = old
  · rw [if_pos hk, if_neg (hk ▸ hne), if_pos hk]
  · rw [if_neg hk]
    by_cases hn : key = new
    · rw [if_pos hn, if_pos hn, hdata]
    · rw [if_neg hn, if_neg hn, if_neg hk]

theorem copied_only {objects : Bucket} (new : Str) (data : Bytes) :
    (∀ key, AList.lookup key (objects.insert new data) = AList.lookup key objects) ↔
      AList.lookup new objects = some data := by
  simp only [Table.lookup_insert_if]
  constructor
  · intro h
    rw [← h new, if_pos rfl]
  · intro h key
    split
    · next hk => rw [hk, h]
    · rfl

end ObsFsCore

/-- A rename is all or nothing exactly when, where the copy has been made but the delete fails,
the copy changed nothing. -/
theorem rename_whole_iff (s : ObsFsCore) (hsame : s.obsClient.backend.RefusesSameFile) (now : Now)
    (parent : ℕ) (name : OsStr) (newParent : ℕ) (newName : OsStr) :
    s.RenamesWhole now parent name newParent newName ↔
      s.RenameSafe parent name newParent newName := by
  have hunchanged : (s.doRename now parent name newParent newName).1.isOk = false →
      (s.doRename now parent name newParent newName).2.obsClient.objects = s.obsClient.objects →
      (s.doRename now parent name newParent newName).2.inodeMgr = s.inodeMgr →
      s.RenamesWhole now parent name newParent newName := by
    intro hfail hobjects hmgr
    refine ⟨?_, ?_⟩
    · intro hok
      rw [hfail] at hok
      cases hok
    · intro _
      rw [hobjects, hmgr]
      exact ⟨fun _ => rfl, fun _ => rfl⟩
  unfold ObsFsCore.RenameSafe
  cases hp : s.inodeMgr.getPath parent with
  | none =>
    have hnone : s.doRename now parent name newParent newName = (.err .notFound, s) := by
      unfold ObsFsCore.doRename
      rw [hp]
    rw [hnone] at hunchanged
    exact iff_of_true (hunchanged rfl rfl rfl) (by simp)
  | some parentPath =>
    cases hq : s.inodeMgr.getPath newParent with
    | none =>
      have hnone : s.doRename now parent name newParent newName = (.err .notFound, s) := by
        unfold ObsFsCore.doRename
        rw [hp, hq]
      rw [hnone] at hunchanged
      exact iff_of_true (hunchanged rfl rfl rfl) (by simp)
    | some newParentPath =>
      simp only [Option.mem_some_iff, forall_eq']
      by_cases hcopy : s.obsClient.fault = none →
          s.obsClient.backend.refusesCopy (s.obsPath (ObsFsCore.childPath parentPath name))
            (s.obsPath (ObsFsCore.childPath newParentPath newName)) = none →
          AList.lookup (s.obsPath (ObsFsCore.childPath parentPath name)) s.obsClient.objects = none
      · obtain ⟨herr, hobjects, hmgr⟩ :=
          ObsFsCore.doRename_copy_failed hp hq now name newName hcopy
        refine iff_of_true (hunchanged (by rw [herr]; rfl) hobjects hmgr) ?_
        intro hf hc data hdata
        rw [hcopy hf hc] at hdata
        cases hdata
      · rw [Classical.not_imp, Classical.not_imp] at hcopy
        obtain ⟨hf, hc, hsome⟩ := hcopy
        obtain ⟨data, hdata⟩ := Option.ne_none_iff_exists'.mp hsome
        have hdone := ObsFsCore.doRename_copied hp hq now name newName hf hc hdata
        dsimp only at hdone
        rw [hdata]
        simp only [Option.mem_some_iff, forall_eq', hf, hc, true_imp_iff]
        simp only [ObsFsCore.RenamesWhole]
        by_cases hdel : s.obsClient.faults (s.obsClient.log.length + 1) = none
        · have hne : s.obsPath (ObsFsCore.childPath parentPath name) ≠
              s.obsPath (ObsFsCore.childPath newParentPath newName) := by
            intro heq
            rw [← heq] at hc
            exact hsame _ hc
          rw [if_pos hdel] at hdone
          rw [hdone.1, hdone.2, hp, hq]
          simp [hdel, ObsFsCore.copied_then_deleted hdata hne]
        · rw [if_neg hdel] at hdone
          rw [hdone.1, hdone.2.1, hdone.2.2, or_iff_right hdel, ← ObsFsCore.copied_only]
          simp

/-- A file renamed over another one, and onto itself. -/
theorem rename_over_is_whole :
    let s := ObsFsCore.oneFile .basic Config.basic_valid [7]
    s.RenamesWhole ⟨1, 1⟩ 1 ['f'.toUInt8] 1 ['g'.toUInt8] ∧
      s.RenamesWhole ⟨1, 1⟩ 1 ['f'.toUInt8] 1 ['f'.toUInt8] := by
  intro s
  have hsame : s.obsClient.backend.RefusesSameFile := Backend.plain_refusesSameFile
  exact ⟨(rename_whole_iff s hsame _ 1 _ 1 _).mpr (by decide),
    (rename_whole_iff s hsame _ 1 _ 1 _).mpr (by decide)⟩

/-- Where the delete fails, the new key holds a copy. -/
theorem rename_is_not_whole :
    let s := ObsFsCore.oneFile .basic Config.basic_valid [7]
    let faults := fun n => if n = s.obsClient.log.length + 1 then some .unexpected else none
    let s' := { s with obsClient := { s.obsClient with faults := faults } }
    let failed := s'.doRename ⟨1, 1⟩ 1 ['f'.toUInt8] 1 ['g'.toUInt8]
    failed.1 = .err .ioError ∧ AList.lookup ['g'] s'.obsClient.objects = none ∧
      AList.lookup ['g'] failed.2.obsClient.objects = some [7] ∧
      AList.lookup ['f'] failed.2.obsClient.objects = some [7] ∧
      ¬s'.RenamesWhole ⟨1, 1⟩ 1 ['f'.toUInt8] 1 ['g'.toUInt8] := by
  refine ⟨by decide, by decide, by decide, by decide, ?_⟩
  intro h
  exact absurd ((h.2 (by decide)).1 ['g']) (by decide)

end ObsFuse
