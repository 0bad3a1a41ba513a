import ObsFuse.Fs.Fuse
import ObsFuse.Fs.LookupPath
import ObsFuse.Fs.Mount
import ObsFuse.Fs.WritePath

/-! # The two records of a file's size

The attribute cache and the inode's entry each keep a size. A write sets the first to the
larger of its size and the end of the write, the second to the end of the write; `setattr`
sets the first only. Here is when both are the size of the file. -/

namespace ObsFuse
open Lib

inductive SizeCall where
  | write (now : Now) (fh offset : ℕ) (data : Bytes)
  | setSize (now : Now) (size : ℕ) (set : SetAttr)
  deriving DecidableEq, Repr

def SizeCall.now : SizeCall → Now
  | .write now .. | .setSize now .. => now

/-- The filesystem, and the size that the file has for the process that writes it. -/
structure SizedFile where
  core : ObsFsCore
  size : ℕ

namespace SizedFile

def cachedSize (core : ObsFsCore) (inode : ℕ) : Option ℕ :=
  (core.metadataCache.attrCache.lookup inode).map (·.attr.size)

def entrySize (core : ObsFsCore) (inode : ℕ) : Option ℕ :=
  (core.inodeMgr.inodeToEntry.lookup inode).map (·.attr.size)

section
variable (inode : ℕ)

def step (f : SizedFile) : SizeCall → SizedFile
  | .write now fh offset data =>
    ⟨(f.core.doWrite now inode fh offset data).2, max f.size (offset + data.length)⟩
  | .setSize now size set =>
    ⟨(ObsFs.setattr f.core now inode { set with size := some size }).2, size⟩

def succeeds (f : SizedFile) : SizeCall → Bool
  | .write now fh offset data => (f.core.doWrite now inode fh offset data).1.isOk
  | .setSize now size set => (ObsFs.setattr f.core now inode { set with size := some size }).1.isOk

/-- The attributes are cached and have not expired, and the call succeeds. -/
def Undisturbed (f : SizedFile) (c : SizeCall) : Prop :=
  (f.core.metadataCache.getAttr c.now.instant inode).1.isSome ∧ f.succeeds inode c = true

instance (f : SizedFile) (c : SizeCall) : Decidable (f.Undisturbed inode c) :=
  inferInstanceAs (Decidable (_ ∧ _))

def Agree (f : SizedFile) : Prop :=
  cachedSize f.core inode = some f.size ∧ entrySize f.core inode = some f.size

instance (f : SizedFile) : Decidable (f.Agree inode) := inferInstanceAs (Decidable (_ ∧ _))

end

/-- A write does not end before the end of the file, and ends within 64 bits; a new size is
the one there is. -/
def KeepsSizes (f : SizedFile) : SizeCall → Prop
  | .write _ _ offset data => f.size ≤ offset + data.length ∧ offset + data.length < 2 ^ 64
  | .setSize _ size _ => size = f.size

instance decidableKeepsSizes (f : SizedFile) : (c : SizeCall) → Decidable (f.KeepsSizes c)
  | .write .. => inferInstanceAs (Decidable (_ ∧ _))
  | .setSize .. => inferInstanceAs (Decidable (_ = _))

variable {core : ObsFsCore} {inode n : ℕ}

/-! ### The records after each call -/

theorem entrySize_updateSize (m : InodeManager) (now : Now) (inode size : ℕ) :
    (AList.lookup inode (m.updateSize now inode size).inodeToEntry).map (·.attr.size) =
      (AList.lookup inode m.inodeToEntry).map fun _ => size := by
  simp only [InodeManager.updateSize, InodeManager.updateAttr, Table.lookup_modify, if_true,
    Option.map_map]
  rfl

theorem write_sizes {now : Now} {fh offset : ℕ} {data : Bytes}
    (hfresh : (core.metadataCache.getAttr now.instant inode).1.isSome)
    (hok : (core.doWrite now inode fh offset data).1.isOk = true) {old entry : ℕ}
    (hcached : cachedSize core inode = some old) (hentry : entrySize core inode = some entry) :
    cachedSize (core.doWrite now inode fh offset data).2 inode =
        some (max old (u64 (offset + data.length))) ∧
      entrySize (core.doWrite now inode fh offset data).2 inode =
        some (u64 (offset + data.length)) := by
  obtain ⟨written, hwritten⟩ := Outcome.isOk_iff.mp hok
  obtain ⟨hlen, -, -, -⟩ := core.doWrite_ok hwritten
  obtain ⟨cached, hlookup, hget⟩ := MetadataCache.getAttr_fresh hfresh
  unfold ObsFsCore.doWrite at hwritten ⊢
  cases hp : core.inodeMgr.getPath inode with
  | none =>
    rw [hp] at hwritten
    cases hwritten
  | some path =>
    rw [hp] at hwritten
    rw [hget] at hwritten ⊢
    dsimp only at hwritten ⊢
    generalize core.writeBuffer.write core.obsClient now.instant inode (core.obsPath path) offset
      data (((some cached.attr).map (·.size)).getD 0) = r at hwritten ⊢
    obtain ⟨_ | _ | _, wb, cl⟩ := r
    · next n =>
      obtain rfl : n = data.length := (Outcome.ok.inj hwritten).trans hlen
      refine ⟨?_, ?_⟩
      · unfold cachedSize at hcached ⊢
        rw [hlookup] at hcached
        simp only [MetadataCache.updateAttr, Table.lookup_modify, if_true, hlookup,
          Option.map_some]
        rw [← Option.some.inj hcached]
      · unfold entrySize at hentry ⊢
        dsimp only
        rw [entrySize_updateSize]
        obtain ⟨e, he, -⟩ := Option.map_eq_some_iff.mp hentry
        rw [he, Option.map_some]
    · cases hwritten
    · cases hwritten

theorem doTruncate_sizes (core : ObsFsCore) (now : Now) (inode size : ℕ) :
    (core.doTruncate now inode size).2.metadataCache = core.metadataCache ∧
      (core.doTruncate now inode size).2.inodeMgr = core.inodeMgr := by
  unfold ObsFsCore.doTruncate
  split
  · exact ⟨rfl, rfl⟩
  · split
    · exact ⟨rfl, rfl⟩
    · exact ⟨rfl, rfl⟩
    · exact ⟨rfl, rfl⟩

theorem setSize_sizes {now : Now} {size : ℕ} {set : SetAttr}
    (hfresh : (core.metadataCache.getAttr now.instant inode).1.isSome)
    (hok : (ObsFs.setattr core now inode { set with size := some size }).1.isOk = true) :
    cachedSize (ObsFs.setattr core now inode { set with size := some size }).2 inode = some size ∧
      entrySize (ObsFs.setattr core now inode { set with size := some size }).2 inode =
        entrySize core inode := by
  obtain ⟨cached, hlookup, hget⟩ := MetadataCache.getAttr_fresh hfresh
  obtain ⟨hcache, hmgr⟩ := doTruncate_sizes core now inode size
  simp only [ObsFs.setattr] at hok ⊢
  generalize core.doTruncate now inode size = r at hok hcache hmgr ⊢
  obtain ⟨_ | _ | _, t⟩ := r
  · dsimp only at hok hcache hmgr ⊢
    simp only [ObsFs.updateAttr, hcache, hget]
    refine ⟨?_, ?_⟩
    · simp only [cachedSize, MetadataCache.putAttr, AList.lookup_insert, Option.map_some]
      rfl
    · simp only [entrySize, hmgr]
  · cases hok
  · cases hok

theorem u64_eq_max_iff (a b : ℕ) : u64 b = max a b ↔ a ≤ b ∧ b < 2 ^ 64 := by
  unfold u64
  refine ⟨?_, ?_⟩
  · intro h
    have hlt : b % 2 ^ 64 < 2 ^ 64 := Nat.mod_lt _ (by decide)
    omega
  · intro h
    rw [Nat.mod_eq_of_lt h.2]
    omega

theorem Agree.step_iff {f : SizedFile} (h : f.Agree inode) (c : SizeCall)
    (hc : f.Undisturbed inode c) : (f.step inode c).Agree inode ↔ f.KeepsSizes c := by
  obtain ⟨hfresh, hok⟩ := hc
  cases c with
  | write now fh offset data =>
    obtain ⟨hcached, hentry⟩ :=
      @write_sizes f.core inode now fh offset data hfresh hok _ _ h.1 h.2
    simp only [Agree, SizedFile.step, KeepsSizes]
    rw [hcached, hentry, Option.some.injEq, Option.some.injEq, ← u64_eq_max_iff]
    refine ⟨?_, ?_⟩
    · exact fun hsizes => hsizes.2
    · intro hend
      rw [hend]
      exact ⟨max_eq_right (le_max_left ..), rfl⟩
  | setSize now size set =>
    obtain ⟨hcached, hentry⟩ := @setSize_sizes f.core inode now size set hfresh hok
    simp only [Agree, SizedFile.step, KeepsSizes]
    rw [hcached, hentry, h.2, Option.some.injEq, Option.some.injEq]
    exact ⟨fun hsizes => hsizes.2.symm, fun hsame => ⟨rfl, hsame.symm⟩⟩

/-! ### The new file -/

/-- The file as `do_create` leaves it, if its path had no inode. -/
theorem created_agree {s t : ObsFsCore} {now : Now} {parent : ℕ} {name : OsStr}
    {mode flags fh : ℕ} {attr : FileAttr}
    (hcreate : s.doCreate now parent name mode flags = (.ok (inode, attr, fh), t))
    (hnew : ∀ parentPath ∈ s.inodeMgr.getPath parent,
      s.inodeMgr.getInode (ObsFsCore.childPath parentPath name) = none) :
    Agree inode ⟨t, 0⟩ := by
  unfold ObsFsCore.doCreate at hcreate
  cases hp : s.inodeMgr.getPath parent with
  | none =>
    rw [hp] at hcreate
    cases hcreate
  | some parentPath =>
    rw [hp] at hcreate
    dsimp only at hcreate
    have hunmapped := hnew parentPath hp
    unfold InodeManager.getInode at hunmapped
    generalize s.obsClient.write (s.obsPath (ObsFsCore.childPath parentPath name)) [] = r
      at hcreate
    obtain ⟨_ | _, cl⟩ := r
    · cases hcreate
    · simp only [ObsFsCore.internInode, InodeManager.getOrCreateInode, hunmapped, Prod.mk.injEq,
        Outcome.ok.injEq] at hcreate
      obtain ⟨⟨rfl, -, -⟩, rfl⟩ := hcreate
      refine ⟨?_, ?_⟩
      · simp only [cachedSize, MetadataCache.invalidateDir, MetadataCache.removeNegative,
          MetadataCache.putAttr, AList.lookup_insert, Option.map_some]
        rfl
      · simp only [entrySize, AList.lookup_insert, Option.map_some]
        rfl

end SizedFile

/-- In every run of calls on a new file that find its attributes cached and succeed, both
records are the size of the file in every state exactly when every write ends at or past the
end of the file and every new size is the one there is. -/
theorem size_records_agree_iff {s t : ObsFsCore} {now : Now} {parent : ℕ} {name : OsStr}
    {mode flags inode fh : ℕ} {attr : FileAttr}
    (hcreate : s.doCreate now parent name mode flags = (.ok (inode, attr, fh), t))
    (hnew : ∀ parentPath ∈ s.inodeMgr.getPath parent,
      s.inodeMgr.getInode (ObsFsCore.childPath parentPath name) = none)
    {calls : List SizeCall}
    (hcalls : Along (SizedFile.step inode) (SizedFile.Undisturbed inode) ⟨t, 0⟩ calls) :
    (∀ n, (run (SizedFile.step inode) ⟨t, 0⟩ (calls.take n)).Agree inode) ↔
      Along (SizedFile.step inode) SizedFile.KeepsSizes ⟨t, 0⟩ calls :=
  @forall_states_iff_along_of _ _ (SizedFile.step inode) (SizedFile.Undisturbed inode)
    SizedFile.KeepsSizes (fun _ => True) (SizedFile.Agree inode) (fun _ _ _ _ => trivial)
    (fun _ c _ hc h => h.step_iff c hc) _ calls hcalls trivial
    (SizedFile.created_agree hcreate hnew)

/-- A new file written without going back, and given the size it has. -/
theorem sizes_agree_after_appends :
    let s := ObsFsCore.emptyObjects []
    let t := (s.doCreate ⟨0, 0⟩ rootInode [97] 0o644 2).2
    (run (SizedFile.step 2) ⟨t, 0⟩ [.write ⟨0, 0⟩ 1 0 [1, 2], .write ⟨0, 0⟩ 1 1 [3, 4, 5],
      .setSize ⟨0, 0⟩ 4 .none]).Agree 2 := by
  intro s t
  exact (@size_records_agree_iff s t ⟨0, 0⟩ rootInode [97] 0o644 2 2 1
    (FileAttr.file 0 2 0 0 0 0o644) rfl (by decide)
    [.write ⟨0, 0⟩ 1 0 [1, 2], .write ⟨0, 0⟩ 1 1 [3, 4, 5], .setSize ⟨0, 0⟩ 4 .none]
    (by decide)).mpr (by decide) 3

/-- Three bytes are written to a new file and then its first byte again: the entry has size 1. -/
theorem rewrite_shrinks_entry_size :
    let t := ((ObsFsCore.emptyObjects []).doCreate ⟨0, 0⟩ rootInode [97] 0o644 2).2
    let calls : List SizeCall := [.write ⟨0, 0⟩ 1 0 [1, 2, 3], .write ⟨0, 0⟩ 1 0 [9]]
    let f := run (SizedFile.step 2) ⟨t, 0⟩ calls
    Along (SizedFile.step 2) (SizedFile.Undisturbed 2) ⟨t, 0⟩ calls ∧ f.size = 3 ∧
      SizedFile.cachedSize f.core 2 = some 3 ∧ SizedFile.entrySize f.core 2 = some 1 ∧
      ¬f.Agree 2 := by
  decide

end ObsFuse
